import DeclarativeMlir.Lua.Activations
import Mathlib.Logic.Relation

/-!
# Life times of captured cells

A function value keeps the addresses of the cells it has captured, whereas cells are released when
their activation returns. As long as no function value survives an activation whose cells it has
captured, every capture that is read holds cells of activations that have not returned.
-/

namespace DeclarativeMlir.Lua.Activations

variable {ι V : Type}

/-! ## Live cells and held objects -/

def ids (activations : List (Activation ι V)) : List ℕ := activations.map Activation.id

namespace State

variable (s : State ι V)

/-- The cell has been made by one of the activations `live`. -/
def CellLive (live : List ℕ) (cell : ℕ) : Prop := cell < s.nextCell ∧ s.owner cell ∈ live

def ArrayLive (live : List ℕ) (address : ℕ) : Prop :=
  address < s.nextCapture ∧ ∀ cell ∈ s.captures address, s.CellLive live cell

/-- Objects that can be read: those in cells or packs of `activations`, those of `objs`, and the
entries of tables among them. -/
inductive Holds (activations : List (Activation ι V)) (objs : List (Content ι V)) :
    Content ι V → Prop where
  | cell {cell} (hlive : s.CellLive (ids activations) cell) : Holds activations objs (s.cells cell)
  | pack {a value packed obj} (ha : a ∈ activations) (hpack : a.pack value = some packed)
      (hobj : obj ∈ packed) : Holds activations objs obj
  | obj {obj} (hobj : obj ∈ objs) : Holds activations objs obj
  | entry {address} (index : ℤ) (htable : Holds activations objs (.table address)) :
      Holds activations objs (s.tables address index)

def RegLive (live : List ℕ) : Reg ι V → Prop
  | .ref cell => s.CellLive live cell
  | .capture address => s.ArrayLive live address
  | .raw _ | .pack _ => True

/-- An activation refers to cells of its own and of older activations only. -/
def StackLive : List (Activation ι V) → Prop
  | [] => True
  | a :: rest => (∀ value reg, a.env value = some reg → s.RegLive (ids (a :: rest)) reg) ∧
    StackLive rest

/-- Functions among the readable objects have captured live cells only. -/
def FunctionsLive (objs : List (Content ι V)) : Prop :=
  ∀ body capture, s.Holds s.activations objs (.fcn body capture) →
    s.ArrayLive (ids s.activations) capture

/-- The invariant of runs in which no function value outlives its captured cells. -/
structure Live : Prop where
  stack : s.StackLive s.activations
  functions : s.FunctionsLive []
  nodup : (ids s.activations).Nodup
  id_lt : ∀ a ∈ s.activations, a.id < s.nextActivation
  owner_lt : ∀ cell < s.nextCell, s.owner cell < s.nextActivation

end State

/-- Scalars and builtin functions refer to nothing. -/
def Content.IsPlain : Content ι V → Prop
  | .scalar _ | .builtin _ => True
  | .table _ | .fcn _ _ => False

theorem Content.not_isPlain_table (address : ℕ) :
    ¬ (Content.table address : Content ι V).IsPlain := id

theorem Content.not_isPlain_fcn (body : Region ι) (capture : ℕ) :
    ¬ (Content.fcn body capture : Content ι V).IsPlain := id

/-- `obj` can be read if `objs` can, or refers to nothing. -/
def State.Readable (s : State ι V) (objs : List (Content ι V)) (obj : Content ι V) : Prop :=
  s.Holds s.activations objs obj ∨ obj.IsPlain

namespace State

variable {s s' : State ι V} {a : Activation ι V} {rest : List (Activation ι V)}
  {activations : List (Activation ι V)} {objs : List (Content ι V)} {obj : Content ι V}

theorem CellLive.mono {live live' : List ℕ} {cell : ℕ} (hcell : s.CellLive live cell)
    (hlive : live ⊆ live') : s.CellLive live' cell :=
  ⟨hcell.1, hlive hcell.2⟩

theorem ArrayLive.mono {live live' : List ℕ} {address : ℕ} (harray : s.ArrayLive live address)
    (hlive : live ⊆ live') : s.ArrayLive live' address :=
  ⟨harray.1, fun cell hcell ↦ (harray.2 cell hcell).mono hlive⟩

theorem Readable.entry {address : ℕ} (htable : s.Readable objs (.table address)) (index : ℤ) :
    s.Readable objs (s.tables address index) := by
  rcases htable with htable | hplain
  · exact .inl (.entry index htable)
  · exact absurd hplain (Content.not_isPlain_table address)

/-- Nothing more can be read when all of `objs` could be read before. -/
theorem FunctionsLive.of_objs (hfunctions : s.FunctionsLive [])
    (hobjs : ∀ obj ∈ objs, s.Readable [] obj) : s.FunctionsLive objs := by
  have hreadable : ∀ obj, s.Holds s.activations objs obj → s.Readable [] obj := by
    intro obj hobj
    induction hobj with
    | cell hlive => exact .inl (.cell hlive)
    | pack ha hpack hobj => exact .inl (.pack ha hpack hobj)
    | obj hobj => exact hobjs _ hobj
    | entry index htable ih => exact ih.entry index
  intro body capture hheld
  rcases hreadable _ hheld with hheld | hplain
  · exact hfunctions body capture hheld
  · exact absurd hplain (Content.not_isPlain_fcn body capture)

/-- Cells and captures that the state has already keep being live. -/
structure Extends (s s' : State ι V) : Prop where
  nextCell : s.nextCell ≤ s'.nextCell
  nextCapture : s.nextCapture ≤ s'.nextCapture
  owner : ∀ cell < s.nextCell, s'.owner cell = s.owner cell
  captures : ∀ address < s.nextCapture, s'.captures address = s.captures address

namespace Extends

variable {live : List ℕ}

theorem cellLive (hext : s.Extends s') {cell : ℕ} (hcell : s.CellLive live cell) :
    s'.CellLive live cell :=
  ⟨hcell.1.trans_le hext.nextCell, by rw [hext.owner cell hcell.1]; exact hcell.2⟩

theorem arrayLive (hext : s.Extends s') {address : ℕ} (harray : s.ArrayLive live address) :
    s'.ArrayLive live address := by
  refine ⟨harray.1.trans_le hext.nextCapture, fun cell hcell ↦ ?_⟩
  rw [hext.captures address harray.1] at hcell
  exact hext.cellLive (harray.2 cell hcell)

theorem regLive (hext : s.Extends s') {reg : Reg ι V} (hreg : s.RegLive live reg) :
    s'.RegLive live reg := by
  cases reg with
  | ref cell => exact hext.cellLive hreg
  | capture address => exact hext.arrayLive hreg
  | raw value => trivial
  | pack objs => trivial

theorem stackLive (hext : s.Extends s') {activations : List (Activation ι V)}
    (hstack : s.StackLive activations) : s'.StackLive activations := by
  induction activations with
  | nil => trivial
  | cons a rest ih =>
    exact ⟨fun value reg hreg ↦ hext.regLive (hstack.1 value reg hreg), ih hstack.2⟩

end Extends

/-! ## Operands -/

theorem holds_content (hlive : s.Live) (hs : s.activations = a :: rest) {value : Value ι}
    (hobj : s.content a value = some obj) : s.Readable [] obj := by
  have hstack := hlive.stack
  rw [hs] at hstack
  unfold content at hobj
  split at hobj
  · rename_i cell hreg
    obtain rfl := Option.some.inj hobj
    have hcell : s.CellLive (ids (a :: rest)) cell := hstack.1 value _ hreg
    rw [← hs] at hcell
    exact .inl (.cell hcell)
  · obtain rfl := Option.some.inj hobj
    exact .inr trivial
  · contradiction

theorem holds_pack (hs : s.activations = a :: rest) {value : Value ι} {packed : List (Content ι V)}
    (hpack : a.pack value = some packed) (hobj : obj ∈ packed) : s.Holds s.activations [] obj := by
  apply Holds.pack _ hpack hobj
  rw [hs]
  exact List.mem_cons_self

theorem cellLive_ref (hlive : s.Live) (hs : s.activations = a :: rest) {value : Value ι} {cell : ℕ}
    (hcell : a.ref value = some cell) : s.CellLive (ids s.activations) cell := by
  have hstack := hlive.stack
  rw [hs] at hstack ⊢
  unfold Activation.ref at hcell
  split at hcell
  · rename_i cell' hreg
    obtain rfl := Option.some.inj hcell
    exact hstack.1 value _ hreg
  · contradiction

theorem arrayLive_capture (hlive : s.Live) (hs : s.activations = a :: rest) {value : Value ι}
    {address : ℕ} (hcapture : a.capture value = some address) :
    s.ArrayLive (ids s.activations) address := by
  have hstack := hlive.stack
  rw [hs] at hstack ⊢
  unfold Activation.capture at hcapture
  split at hcapture
  · rename_i address' hreg
    obtain rfl := Option.some.inj hcapture
    exact hstack.1 value _ hreg
  · contradiction

theorem exists_of_mem_mapM {α β : Type} {f : α → Option β} {xs : List α} {ys : List β}
    (hmap : xs.mapM f = some ys) {y : β} (hy : y ∈ ys) : ∃ x ∈ xs, f x = some y := by
  induction xs generalizing ys with
  | nil =>
    simp only [List.mapM_nil, Option.pure_def, Option.some.injEq] at hmap
    simp [← hmap] at hy
  | cons x xs ih =>
    simp only [List.mapM_cons, Option.bind_eq_bind, Option.bind_eq_some_iff, Option.pure_def,
      Option.some.injEq] at hmap
    obtain ⟨y', hx, ys', hxs, rfl⟩ := hmap
    rcases List.mem_cons.mp hy with rfl | hy
    · exact ⟨x, List.mem_cons_self, hx⟩
    · obtain ⟨x', hx', hy'⟩ := ih hxs hy
      exact ⟨x', List.mem_cons_of_mem _ hx', hy'⟩

theorem holds_concat (hlive : s.Live) (hs : s.activations = a :: rest) {op : Op ι}
    (hconcat : s.concat a op = some objs) :
    ∀ obj ∈ objs, s.Readable [] obj := by
  intro obj hobj
  unfold concat at hconcat
  split at hconcat
  · simp only [Option.bind_eq_bind, Option.bind_eq_some_iff, Option.some.injEq] at hconcat
    obtain ⟨vals, hvals, tail, htail, rfl⟩ := hconcat
    rcases List.mem_append.mp hobj with hobj | hobj
    · obtain ⟨value, -, hcontent⟩ := exists_of_mem_mapM hvals hobj
      exact holds_content hlive hs hcontent
    · obtain ⟨packed, hpacked, hobj⟩ := List.mem_flatten.mp hobj
      obtain ⟨value, -, hpack⟩ := exists_of_mem_mapM htail hpacked
      exact .inl (holds_pack hs hpack hobj)
  · contradiction

/-! ## What one step does to the invariant -/

/-- A step after which no other objects can be read than `objs` and those before. -/
theorem Live.of_readable (hlive : s.Live) (hext : s.Extends s')
    (hids : ids s.activations ⊆ ids s'.activations) (hnodup : (ids s'.activations).Nodup)
    (hstack : s'.StackLive s'.activations)
    (hid : ∀ a ∈ s'.activations, a.id < s'.nextActivation)
    (howner : ∀ cell < s'.nextCell, s'.owner cell < s'.nextActivation)
    (hfunctions : s.FunctionsLive objs)
    (hcells : ∀ cell, s'.CellLive (ids s'.activations) cell → s.Readable objs (s'.cells cell))
    (hpacks : ∀ a ∈ s'.activations, ∀ value packed, a.pack value = some packed →
      ∀ obj ∈ packed, s.Readable objs obj)
    (htables : ∀ address index, s.Readable objs (.table address) →
      s.Readable objs (s'.tables address index)) : s'.Live := by
  refine ⟨hstack, fun body capture hheld ↦ ?_, hnodup, hid, howner⟩
  have hreadable : ∀ obj, s'.Holds s'.activations [] obj → s.Readable objs obj := by
    intro obj hobj
    induction hobj with
    | cell hcell => exact hcells _ hcell
    | pack ha hpack hobj => exact hpacks _ ha _ _ hpack _ hobj
    | obj hobj => contradiction
    | entry index htable ih => exact htables _ index ih
  rcases hreadable _ hheld with hheld | hplain
  · exact (hext.arrayLive (hfunctions body capture hheld)).mono hids
  · exact absurd hplain (Content.not_isPlain_fcn body capture)

section

variable [DecidableEq ι] {op : Op ι} {code : List (Op ι)} {results : List (Reg ι V)}

theorem mem_results_of_env {value : Value ι} {reg : Reg ι V}
    (hreg : (a.next op code results).env value = some reg) :
    reg ∈ results ∨ a.env value = some reg := by
  unfold Activation.next at hreg
  cases value with
  | res id i =>
    simp only at hreg
    split at hreg
    · exact .inl (List.mem_of_getElem? hreg)
    · exact .inr hreg
  | arg label i => exact .inr hreg

theorem mem_results_of_pack {value : Value ι} {packed : List (Content ι V)}
    (hpack : (a.next op code results).pack value = some packed) :
    .pack packed ∈ results ∨ a.pack value = some packed := by
  unfold Activation.pack at hpack
  split at hpack
  · rename_i objs hreg
    obtain rfl := Option.some.inj hpack
    rcases mem_results_of_env hreg with hmem | hreg
    · exact .inl hmem
    · exact .inr (by rw [Activation.pack, hreg])
  · contradiction

theorem stackLive_next (hlive : s.Live) (hs : s.activations = a :: rest) (hext : s.Extends s')
    (hregs : ∀ reg ∈ results, s'.RegLive (ids (a :: rest)) reg) :
    s'.StackLive (a.next op code results :: rest) := by
  have hstack := hext.stackLive hlive.stack
  rw [hs] at hstack
  refine ⟨fun value reg hreg ↦ ?_, hstack.2⟩
  rcases mem_results_of_env hreg with hmem | hreg
  · exact hregs reg hmem
  · exact hstack.1 value reg hreg

theorem id_lt_next (hlive : s.Live) (hs : s.activations = a :: rest) :
    ∀ a' ∈ a.next op code results :: rest, a'.id < s.nextActivation := by
  have hid := hlive.id_lt
  rw [hs] at hid
  intro a' ha'
  rcases List.mem_cons.mp ha' with rfl | ha'
  · exact hid a List.mem_cons_self
  · exact hid a' (List.mem_cons_of_mem _ ha')

theorem packs_next (hs : s.activations = a :: rest)
    (hpacks : ∀ packed, .pack packed ∈ results → ∀ obj ∈ packed, s.Readable objs obj) :
    ∀ a' ∈ a.next op code results :: rest, ∀ value packed, a'.pack value = some packed →
      ∀ obj ∈ packed, s.Readable objs obj := by
  intro a' ha' value packed hpack obj hobj
  rcases List.mem_cons.mp ha' with rfl | ha'
  · rcases mem_results_of_pack hpack with hmem | hpack
    · exact hpacks packed hmem obj hobj
    · refine .inl (.pack ?_ hpack hobj)
      rw [hs]
      exact List.mem_cons_self
  · refine .inl (.pack ?_ hpack hobj)
    rw [hs]
    exact List.mem_cons_of_mem _ ha'

/-- An op with results that are live, or packs of readable objects. -/
theorem Live.next (hlive : s.Live) (hs : s.activations = a :: rest)
    (hregs : ∀ reg ∈ results, s.RegLive (ids s.activations) reg)
    (hpacks : ∀ packed, .pack packed ∈ results → ∀ obj ∈ packed, s.Readable [] obj) :
    (s.next a rest op code results).Live := by
  have hext : s.Extends (s.next a rest op code results) :=
    ⟨le_rfl, le_rfl, fun _ _ ↦ rfl, fun _ _ ↦ rfl⟩
  have hids : ids s.activations = ids (s.next a rest op code results).activations := by
    rw [hs]
    rfl
  rw [hs] at hregs
  apply hlive.of_readable hext (hids ▸ List.Subset.refl _) (hids ▸ hlive.nodup) _
    (id_lt_next (s := s) hlive hs)
    hlive.owner_lt hlive.functions
  · rw [← hids]
    exact fun cell hcell ↦ .inl (.cell hcell)
  · exact packs_next hs hpacks
  · exact fun address index htable ↦ htable.entry index
  · exact stackLive_next hlive hs hext fun reg hreg ↦ hext.regLive (hregs reg hreg)

/-- New cells of the running activation. -/
theorem Live.alloca (hlive : s.Live) (hs : s.activations = a :: rest)
    (hobjs : s.FunctionsLive objs) : (s.alloca a rest op code objs).Live := by
  have hext : s.Extends (s.alloca a rest op code objs) := by
    refine ⟨Nat.le_add_right _ _, le_rfl, fun cell hcell ↦ ?_, fun _ _ ↦ rfl⟩
    simp only [State.alloca, if_pos hcell]
  have hids : ids s.activations = ids (s.alloca a rest op code objs).activations := by
    rw [hs]
    rfl
  apply hlive.of_readable hext (hids ▸ List.Subset.refl _) (hids ▸ hlive.nodup) _
    (id_lt_next (s := s) hlive hs) _ hobjs
  · rw [← hids]
    rintro cell ⟨hlt, howner⟩
    simp only [State.alloca] at hlt howner ⊢
    split
    case isTrue hold =>
      rw [if_pos hold] at howner
      exact .inl (.cell ⟨hold, howner⟩)
    case isFalse hnew =>
      have hget : cell - s.nextCell < objs.length := by omega
      rw [List.getElem?_eq_getElem hget, Option.getD_some]
      exact .inl (.obj (List.getElem_mem hget))
  · apply packs_next hs
    intro packed hmem
    simp at hmem
  · exact fun address index htable ↦ htable.entry index
  · apply stackLive_next hlive hs hext
    intro reg hreg
    obtain ⟨i, hi, rfl⟩ := List.mem_map.mp hreg
    rw [List.mem_range] at hi
    refine ⟨Nat.add_lt_add_left hi _, ?_⟩
    simp only [State.alloca, if_neg (Nat.not_lt.mpr (Nat.le_add_right s.nextCell i))]
    exact List.mem_cons_self
  · intro cell hcell
    simp only [State.alloca]
    split
    case isTrue hold => exact hlive.owner_lt cell hold
    case isFalse hnew =>
      apply hlive.id_lt a
      rw [hs]
      exact List.mem_cons_self

end

/-- A cell is overwritten with a readable object. -/
theorem Live.setCell (hlive : s.Live) (hobj : s.Readable [] obj) (cell : ℕ) :
    (s.setCell cell obj).Live := by
  have hext : s.Extends (s.setCell cell obj) :=
    ⟨le_rfl, le_rfl, fun _ _ ↦ rfl, fun _ _ ↦ rfl⟩
  apply hlive.of_readable hext (List.Subset.refl _) hlive.nodup (hext.stackLive hlive.stack) hlive.id_lt
    hlive.owner_lt hlive.functions
  · intro cell' hcell
    rcases eq_or_ne cell' cell with rfl | hne
    · simpa only [State.setCell, Function.update_self] using hobj
    · simp only [State.setCell, Function.update_of_ne hne]
      exact .inl (.cell hcell)
  · exact fun a ha value packed hpack obj hobj ↦ .inl (.pack ha hpack hobj)
  · exact fun address index htable ↦ htable.entry index

/-- The entries of a table are overwritten with readable objects. -/
theorem Live.setTable (hlive : s.Live) (address : ℕ) (entries : ℤ → Content ι V)
    (hentries : s.Readable [] (.table address) → ∀ index, s.Readable [] (entries index)) :
    (s.setTable address entries).Live := by
  have hext : s.Extends (s.setTable address entries) :=
    ⟨le_rfl, le_rfl, fun _ _ ↦ rfl, fun _ _ ↦ rfl⟩
  apply hlive.of_readable hext (List.Subset.refl _) hlive.nodup (hext.stackLive hlive.stack) hlive.id_lt
    hlive.owner_lt hlive.functions
  · exact fun cell hcell ↦ .inl (.cell hcell)
  · exact fun a ha value packed hpack obj hobj ↦ .inl (.pack ha hpack hobj)
  · intro address' index htable
    rcases eq_or_ne address' address with rfl | hne
    · simpa only [State.setTable, Function.update_self] using hentries htable index
    · simp only [State.setTable, Function.update_of_ne hne]
      exact htable.entry index

/-- A capture array of live cells is made. -/
theorem Live.newCapture (hlive : s.Live) (cells : List ℕ) :
    (s.newCapture cells).Live := by
  have hext : s.Extends (s.newCapture cells) := by
    refine ⟨le_rfl, Nat.le_add_right _ _, fun _ _ ↦ rfl, fun address haddress ↦ ?_⟩
    exact Function.update_of_ne haddress.ne _ _
  apply hlive.of_readable hext (List.Subset.refl _) hlive.nodup (hext.stackLive hlive.stack) hlive.id_lt
    hlive.owner_lt hlive.functions
  · exact fun cell hcell ↦ .inl (.cell hcell)
  · exact fun a ha value packed hpack obj hobj ↦ .inl (.pack ha hpack hobj)
  · exact fun address index htable ↦ htable.entry index

theorem Live.newTable (hlive : s.Live) (nil : V) : (s.newTable nil).Live := by
  have htable := hlive.setTable s.nextTable (fun _ ↦ .scalar nil) fun _ _ ↦ .inr trivial
  have hext : (s.setTable s.nextTable fun _ ↦ .scalar nil).Extends (s.newTable nil) :=
    ⟨le_rfl, le_rfl, fun _ _ ↦ rfl, fun _ _ ↦ rfl⟩
  apply htable.of_readable hext (List.Subset.refl _) htable.nodup (hext.stackLive htable.stack)
    htable.id_lt htable.owner_lt htable.functions
  · exact fun cell hcell ↦ .inl (.cell hcell)
  · exact fun a ha value packed hpack obj hobj ↦ .inl (.pack ha hpack hobj)
  · exact fun address index htable ↦ htable.entry index

/-- Only the new table is readable in addition, and its entries are nil. -/
theorem functionsLive_newTable (hlive : s.Live) (nil : V) :
    (s.newTable nil).FunctionsLive [.table s.nextTable] := by
  have hreadable : ∀ obj, (s.newTable nil).Holds s.activations [.table s.nextTable] obj →
      (s.newTable nil).Readable [] obj ∨ obj = .table s.nextTable := by
    intro obj hobj
    induction hobj with
    | cell hcell => exact .inl (.inl (.cell hcell))
    | pack ha hpack hobj => exact .inl (.inl (.pack ha hpack hobj))
    | obj hobj => exact .inr (List.mem_singleton.mp hobj)
    | entry index htable ih =>
      rcases ih with htable | htable
      · exact .inl (htable.entry index)
      · obtain rfl := Content.table.inj htable
        refine .inl (.inr ?_)
        simp [State.newTable, setTable, Content.IsPlain]
  intro body capture hheld
  rcases hreadable _ hheld with (hheld | hplain) | htable
  · exact (hlive.newTable nil).functions body capture hheld
  · exact absurd hplain (Content.not_isPlain_fcn body capture)
  · contradiction

/-- Only the new function is readable in addition, and its captures are live. -/
theorem functionsLive_newCapture (hlive : s.Live) {cells : List ℕ}
    (hcells : ∀ cell ∈ cells, s.CellLive (ids s.activations) cell) (body : Region ι) :
    (s.newCapture cells).FunctionsLive [.fcn body s.nextCapture] := by
  have hreadable : ∀ obj, (s.newCapture cells).Holds s.activations [.fcn body s.nextCapture] obj →
      (s.newCapture cells).Readable [] obj ∨ obj = .fcn body s.nextCapture := by
    intro obj hobj
    induction hobj with
    | cell hcell => exact .inl (.inl (.cell hcell))
    | pack ha hpack hobj => exact .inl (.inl (.pack ha hpack hobj))
    | obj hobj => exact .inr (List.mem_singleton.mp hobj)
    | entry index htable ih =>
      rcases ih with htable | htable
      · exact .inl (htable.entry index)
      · contradiction
  intro body' capture hheld
  rcases hreadable _ hheld with (hheld | hplain) | hfcn
  · exact (hlive.newCapture cells).functions body' capture hheld
  · exact absurd hplain (Content.not_isPlain_fcn body' capture)
  · obtain ⟨rfl, rfl⟩ := Content.fcn.inj hfcn
    refine ⟨Nat.lt_succ_self _, fun cell hcell ↦ ?_⟩
    simp only [State.newCapture, Function.update_self] at hcell
    exact hcells cell hcell

theorem readable_of_survives (hs : s.activations = a :: rest)
    (hobjs : ∀ obj ∈ objs, s.Readable [] obj) (hobj : s.Holds rest objs obj) :
    s.Readable [] obj := by
  have hsub : rest ⊆ s.activations := by
    rw [hs]
    exact List.subset_cons_self _ _
  induction hobj with
  | cell hcell => exact .inl (.cell (hcell.mono (List.map_subset _ hsub)))
  | pack ha hpack hobj => exact .inl (.pack (hsub ha) hpack hobj)
  | obj hobj => exact hobjs _ hobj
  | entry index htable ih => exact ih.entry index

section

variable [DecidableEq ι] {op : Op ι} {code : List (Op ι)}

theorem Live.jump (hlive : s.Live) (hs : s.activations = a :: rest) {dest : BlockId ι}
    {a' : Activation ι V} (hjump : a.jump dest = some a') :
    ({ s with activations := a' :: rest } : State ι V).Live := by
  unfold Activation.jump at hjump
  rw [Option.map_eq_some_iff] at hjump
  obtain ⟨block, -, rfl⟩ := hjump
  have hext : s.Extends { s with activations := { a with code := block.ops } :: rest } :=
    ⟨le_rfl, le_rfl, fun _ _ ↦ rfl, fun _ _ ↦ rfl⟩
  have hids : ids s.activations = ids ({ a with code := block.ops } :: rest) := by
    rw [hs]
    rfl
  have hstack := hext.stackLive hlive.stack
  have hid := hlive.id_lt
  rw [hs] at hstack hid
  apply hlive.of_readable hext (hids ▸ List.Subset.refl _) (hids ▸ hlive.nodup) hstack _ hlive.owner_lt hlive.functions
  · rw [← hids]
    exact fun cell hcell ↦ .inl (.cell hcell)
  · intro a' ha' value packed hpack obj hobj
    rcases List.mem_cons.mp ha' with rfl | ha'
    · exact .inl (holds_pack hs hpack hobj)
    · refine .inl (.pack ?_ hpack hobj)
      rw [hs]
      exact List.mem_cons_of_mem _ ha'
  · exact fun address index htable ↦ htable.entry index
  · intro a' ha'
    rcases List.mem_cons.mp ha' with rfl | ha'
    · exact hid a List.mem_cons_self
    · exact hid a' (List.mem_cons_of_mem _ ha')

/-- A function is called: its captured cells belong to older activations. -/
theorem Live.enter (hlive : s.Live) {capture : ℕ}
    (harray : s.ArrayLive (ids s.activations) capture) {args : List (Content ι V)}
    (hargs : ∀ obj ∈ args, s.Readable [] obj) (body : Region ι) :
    (s.enter body capture args).Live := by
  have hext : s.Extends (s.enter body capture args) :=
    ⟨le_rfl, le_rfl, fun _ _ ↦ rfl, fun _ _ ↦ rfl⟩
  have hsub : ids s.activations ⊆ ids (s.enter body capture args).activations :=
    List.subset_cons_self _ _
  have hentry : ∀ callee ∈ (s.enter body capture args).activations.head?, ∀ value reg,
      callee.env value = some reg → reg = .capture capture ∨ reg = .pack args := by
    intro callee hcallee value reg hreg
    obtain rfl := Option.some.inj hcallee
    simp only at hreg
    split at hreg
    · split at hreg
      · exact .inl (Option.some.inj hreg).symm
      · contradiction
    · split at hreg
      · exact .inr (Option.some.inj hreg).symm
      · contradiction
    · contradiction
  have hnodup : (ids (s.enter body capture args).activations).Nodup := by
    refine List.nodup_cons.mpr ⟨fun hmem ↦ ?_, hlive.nodup⟩
    obtain ⟨a, ha, heq⟩ := List.mem_map.mp hmem
    exact absurd heq (hlive.id_lt a ha).ne
  apply hlive.of_readable hext hsub hnodup _ _ _ hlive.functions
  · rintro cell ⟨hlt, howner⟩
    rcases List.mem_cons.mp howner with hnew | hold
    · exact absurd hnew (hlive.owner_lt cell hlt).ne
    · exact .inl (.cell ⟨hlt, hold⟩)
  · intro a ha value packed hpack obj hobj
    rcases List.mem_cons.mp ha with rfl | ha
    · unfold Activation.pack at hpack
      split at hpack
      · rename_i objs hreg
        obtain rfl := Option.some.inj hpack
        rcases hentry _ rfl value _ hreg with hcapture | hpack
        · contradiction
        · obtain rfl := Reg.pack.inj hpack
          exact hargs obj hobj
      · contradiction
    · exact .inl (.pack ha hpack hobj)
  · exact fun address index htable ↦ htable.entry index
  · refine ⟨fun value reg hreg ↦ ?_, hext.stackLive hlive.stack⟩
    rcases hentry _ rfl value reg hreg with rfl | rfl
    · exact (hext.arrayLive harray).mono hsub
    · trivial
  · intro a ha
    rcases List.mem_cons.mp ha with rfl | ha
    · exact Nat.lt_succ_self _
    · exact Nat.lt_succ_of_lt (hlive.id_lt a ha)
  · exact fun cell hcell ↦ Nat.lt_succ_of_lt (hlive.owner_lt cell hcell)

/-- The activations after a return: the caller has the pack of the returned values. -/
theorem leave_activations (s : State ι V) (rest : List (Activation ι V))
    (objs : List (Content ι V)) :
    (s.leave rest objs).activations = rest ∨ ∃ caller rest' call code, rest = caller :: rest' ∧
      (s.leave rest objs).activations = caller.next call code [.pack objs] :: rest' := by
  unfold leave
  rcases rest with _ | ⟨⟨id, blocks, _ | ⟨call, code⟩, env⟩, rest'⟩
  · exact .inl rfl
  · exact .inl rfl
  · exact .inr ⟨_, rest', call, code, rfl, rfl⟩

theorem ids_leave (objs : List (Content ι V)) : ids (s.leave rest objs).activations = ids rest := by
  rcases leave_activations s rest objs with h | ⟨caller, rest', call, code, rfl, h⟩
  · rw [h]
  · rw [h]
    rfl

/-- What can be read after a return survives it. -/
theorem survives_of_holds (hobj : (s.leave rest objs).Holds (s.leave rest objs).activations [] obj) :
    s.Holds rest objs obj := by
  induction hobj with
  | cell hcell =>
    rw [ids_leave] at hcell
    exact .cell hcell
  | @pack a' value packed obj ha hpack hobj =>
    rcases leave_activations s rest objs with h | ⟨caller, rest', call, code, rfl, h⟩
    · rw [h] at ha
      exact .pack ha hpack hobj
    · rw [h] at ha
      rcases List.mem_cons.mp ha with rfl | ha
      · rcases mem_results_of_pack hpack with hmem | hpack
        · rw [List.mem_singleton] at hmem
          obtain rfl := Reg.pack.inj hmem
          exact .obj hobj
        · exact .pack List.mem_cons_self hpack hobj
      · exact .pack (List.mem_cons_of_mem _ ha) hpack hobj
  | obj hobj => contradiction
  | entry index htable ih => exact .entry index ih

/-- An activation returns, and no function value that survives has captured one of its cells. -/
theorem Live.leave (hlive : s.Live) (hs : s.activations = a :: rest)
    (hobjs : ∀ obj ∈ objs, s.Readable [] obj)
    (hescape : ∀ body capture,
      (s.leave rest objs).Holds (s.leave rest objs).activations [] (.fcn body capture) →
      ∀ cell ∈ s.captures capture, s.owner cell ≠ a.id) : (s.leave rest objs).Live := by
  obtain ⟨hstack, hfunctions, hnodup, hid, howner⟩ := hlive
  have hext : s.Extends (s.leave rest objs) := ⟨le_rfl, le_rfl, fun _ _ ↦ rfl, fun _ _ ↦ rfl⟩
  rw [hs] at hstack hnodup hid
  refine ⟨?_, fun body capture hheld ↦ ?_, ?_, ?_, howner⟩
  · rcases leave_activations s rest objs with h | ⟨caller, rest', call, code, rfl, h⟩
    · rw [h]
      exact hext.stackLive hstack.2
    · rw [h]
      refine ⟨fun value reg hreg ↦ ?_, hext.stackLive hstack.2.2⟩
      rcases mem_results_of_env hreg with hmem | hreg
      · rw [List.mem_singleton] at hmem
        rw [hmem]
        trivial
      · exact hext.regLive (hstack.2.1 value reg hreg)
  · have hsurvives := survives_of_holds hheld
    have harray : s.ArrayLive (ids s.activations) capture := by
      rcases readable_of_survives hs hobjs hsurvives with hheld | hplain
      · exact hfunctions body capture hheld
      · exact absurd hplain (Content.not_isPlain_fcn body capture)
    refine ⟨harray.1, fun cell hcell ↦ ⟨(harray.2 cell hcell).1, ?_⟩⟩
    have howners := (harray.2 cell hcell).2
    rw [hs] at howners
    rw [ids_leave]
    exact (List.mem_cons.mp howners).resolve_left (hescape body capture hheld cell hcell)
  · rw [ids_leave]
    exact (List.nodup_cons.mp hnodup).2
  · rcases leave_activations s rest objs with h | ⟨caller, rest', call, code, rfl, h⟩
    · rw [h]
      exact fun a' ha' ↦ hid a' (List.mem_cons_of_mem _ ha')
    · rw [h]
      intro a' ha'
      rcases List.mem_cons.mp ha' with rfl | ha'
      · exact hid caller (by simp)
      · exact hid a' (by simp [ha'])

/-! ## Steps -/

/-- The running activation is about to return, and a function value that can be read afterwards
has captured one of its cells. -/
def Escapes (s : State ι V) : Prop :=
  ∃ a rest op code objs body capture cell,
    s.activations = a :: rest ∧ a.code = op :: code ∧ op.name = .ret ∧
      s.concat a op = some objs ∧
      (s.leave rest objs).Holds (s.leave rest objs).activations [] (.fcn body capture) ∧
      cell ∈ s.captures capture ∧ s.owner cell = a.id

/-- A step keeps the invariant unless a function value escapes. -/
theorem Live.exec {interp : Interp ι V} (hlive : s.Live) (hs : s.activations = a :: rest)
    (hcode : a.code = op :: code) (hescape : ¬ s.Escapes)
    (hexec : Activations.exec interp s a rest op code = some s') : s'.Live := by
  have hplain : ∀ obj : Content ι V, obj.IsPlain → s.FunctionsLive [obj] := by
    intro obj hobj
    apply hlive.functions.of_objs
    intro obj' hobj'
    rw [List.mem_singleton.mp hobj']
    exact .inr hobj
  unfold Activations.exec at hexec
  split at hexec
  · simp only [Option.bind_eq_bind, Option.bind_eq_some_iff, Option.some.injEq] at hexec
    obtain ⟨objs, -, rfl⟩ := hexec
    exact hlive.alloca hs (hplain _ trivial)
  split at hexec
  · simp only [Option.bind_eq_bind, Option.bind_eq_some_iff, Option.some.injEq] at hexec
    obtain ⟨objs, -, rfl⟩ := hexec
    exact hlive.next hs (by simp [RegLive]) (by simp)
  split at hexec
  case h_1 | h_2 | h_3 =>
    obtain rfl := Option.some.inj hexec
    exact hlive.alloca hs (hplain _ trivial)
  case h_4 =>
    obtain rfl := Option.some.inj hexec
    exact (hlive.newTable interp.nil).alloca hs (functionsLive_newTable hlive interp.nil)
  case h_5 =>
    simp only [Option.bind_eq_bind, Option.bind_eq_some_iff, Option.some.injEq] at hexec
    obtain ⟨cell, -, obj, hobj, rfl⟩ := hexec
    exact (hlive.setCell (holds_content hlive hs hobj) cell).next hs (by simp) (by simp)
  case h_6 =>
    obtain ⟨_ | address | _ | _, htbl, hexec⟩ := Option.bind_eq_some_iff.mp hexec <;>
      try contradiction
    simp only [Option.bind_eq_bind, Option.bind_eq_some_iff, Option.some.injEq] at hexec
    obtain ⟨key, -, rfl⟩ := hexec
    apply hlive.alloca hs
    apply hlive.functions.of_objs
    intro obj hobj
    rw [List.mem_singleton.mp hobj]
    exact (holds_content hlive hs htbl).entry _
  case h_7 =>
    obtain ⟨_ | address | _ | _, htbl, hexec⟩ := Option.bind_eq_some_iff.mp hexec <;>
      try contradiction
    simp only [Option.bind_eq_bind, Option.bind_eq_some_iff, Option.some.injEq] at hexec
    obtain ⟨key, -, obj, hobj, rfl⟩ := hexec
    have hentries := hlive.setTable address
      (Function.update (s.tables address) (interp.index key) obj) fun htable index ↦ by
        rcases eq_or_ne index (interp.index key) with rfl | hne
        · rw [Function.update_self]
          exact holds_content hlive hs hobj
        · rw [Function.update_of_ne hne]
          exact htable.entry index
    exact hentries.next hs (by simp) (by simp)
  case h_8 =>
    simp only [Option.bind_eq_bind, Option.bind_eq_some_iff, Option.some.injEq] at hexec
    obtain ⟨objs, hobjs, rfl⟩ := hexec
    apply hlive.next hs
    · simp [RegLive]
    · intro packed hpacked obj hobj
      rw [List.mem_singleton] at hpacked
      obtain rfl := Reg.pack.inj hpacked
      exact holds_concat hlive hs hobjs obj hobj
  case h_9 =>
    simp only [Option.bind_eq_bind, Option.bind_eq_some_iff, Option.some.injEq] at hexec
    obtain ⟨objs, hpack, rfl⟩ := hexec
    apply hlive.alloca hs
    apply hlive.functions.of_objs
    intro obj hobj
    obtain ⟨i, -, rfl⟩ := List.mem_map.mp hobj
    cases hget : objs[i]? with
    | none => exact .inr trivial
    | some obj => exact .inl (holds_pack hs hpack (List.mem_of_getElem? hget))
  case h_10 =>
    simp only [Option.bind_eq_bind, Option.bind_eq_some_iff, Option.ite_none_right_eq_some,
      Option.some.injEq] at hexec
    obtain ⟨objs, hpack, -, rfl⟩ := hexec
    apply hlive.alloca hs
    apply hlive.functions.of_objs
    exact fun obj hobj ↦ .inl (holds_pack hs hpack (List.mem_of_mem_take hobj))
  case h_11 =>
    split at hexec
    case h_2 => contradiction
    case h_1 body hregions =>
    simp only [Option.bind_eq_bind, Option.bind_eq_some_iff, Option.some.injEq] at hexec
    obtain ⟨cells, hcells, rfl⟩ := hexec
    apply (hlive.newCapture cells).alloca hs
    apply functionsLive_newCapture hlive
    intro cell hcell
    obtain ⟨value, -, href⟩ := exists_of_mem_mapM hcells hcell
    exact cellLive_ref hlive hs href
  case h_12 =>
    simp only [Option.bind_eq_bind, Option.bind_eq_some_iff, Option.some.injEq] at hexec
    obtain ⟨address, hcapture, rfl⟩ := hexec
    apply hlive.next hs
    · intro reg hreg
      obtain ⟨cell, hcell, rfl⟩ := List.mem_map.mp hreg
      exact (arrayLive_capture hlive hs hcapture).2 cell (List.mem_of_mem_take hcell)
    · intro packed hpacked
      obtain ⟨cell, -, href⟩ := List.mem_map.mp hpacked
      contradiction
  case h_13 =>
    simp only [Option.bind_eq_bind, Option.bind_eq_some_iff] at hexec
    obtain ⟨objs, hpack, fcn, hfcn, hexec⟩ := hexec
    split at hexec
    case h_1 body capture =>
      obtain rfl := Option.some.inj hexec
      have hcapture : s.ArrayLive (ids s.activations) capture := by
        rcases holds_content hlive hs hfcn with hheld | hplain
        · exact hlive.functions body capture hheld
        · exact absurd hplain (Content.not_isPlain_fcn body capture)
      exact hlive.enter hcapture (fun obj hobj ↦ .inl (holds_pack hs hpack hobj)) body
    case h_2 name =>
      obtain rfl := Option.some.inj hexec
      apply hlive.next hs
      · simp [RegLive]
      · intro packed hpacked obj hobj
        rw [List.mem_singleton] at hpacked
        obtain rfl := Reg.pack.inj hpacked
        contradiction
    case h_3 => contradiction
  case h_14 hname =>
    simp only [Option.bind_eq_bind, Option.bind_eq_some_iff, Option.some.injEq] at hexec
    obtain ⟨objs, hobjs, rfl⟩ := hexec
    apply hlive.leave hs (holds_concat hlive hs hobjs)
    intro body capture hheld cell hcell howner
    exact hescape ⟨a, rest, op, code, objs, body, capture, cell, hs, hcode, hname, hobjs, hheld,
      hcell, howner⟩
  case h_15 =>
    split at hexec
    case h_2 => contradiction
    case h_1 dest hdest =>
    simp only [Option.bind_eq_bind, Option.bind_eq_some_iff, Option.some.injEq] at hexec
    obtain ⟨a', hjump, rfl⟩ := hexec
    exact hlive.jump hs hjump
  case h_16 =>
    split at hexec
    case h_2 => contradiction
    case h_1 trueDest falseDest hdest =>
    simp only [Option.bind_eq_bind, Option.bind_eq_some_iff, Option.some.injEq] at hexec
    obtain ⟨obj, -, a', hjump, rfl⟩ := hexec
    exact hlive.jump hs hjump
  case h_17 => contradiction

theorem Live.step {interp : Interp ι V} (hlive : s.Live) (hescape : ¬ s.Escapes)
    (hstep : Activations.step interp s = some s') : s'.Live := by
  unfold Activations.step at hstep
  split at hstep
  case h_1 => contradiction
  case h_2 a rest hs =>
    split at hstep
    case h_1 => contradiction
    case h_2 op code hcode => exact hlive.exec hs hcode hescape hstep

theorem live_initial (interp : Interp ι V) (main : Region ι) : (initial interp main).Live := by
  have hheld : ∀ obj, (initial interp main).Holds (initial interp main).activations [] obj →
      obj.IsPlain := by
    intro obj hobj
    induction hobj with
    | cell hcell => exact absurd hcell.1 (Nat.not_lt_zero _)
    | pack ha hpack hobj =>
      rw [initial, List.mem_singleton] at ha
      subst ha
      contradiction
    | obj hobj => contradiction
    | entry index htable ih => exact absurd ih (Content.not_isPlain_table _)
  constructor
  · exact ⟨fun value reg hreg ↦ by contradiction, trivial⟩
  · exact fun body capture hobj ↦ absurd (hheld _ hobj) (Content.not_isPlain_fcn body capture)
  · exact List.nodup_singleton 0
  · intro a ha
    rw [initial, List.mem_singleton] at ha
    subst ha
    exact Nat.zero_lt_one
  · exact fun cell hcell ↦ absurd hcell (Nat.not_lt_zero _)

/-! ## Runs -/

/-- A capture that is about to be read holds cells of activations that have not returned. -/
def ReadsLive (s : State ι V) : Prop :=
  ∀ a rest op code capture address, s.activations = a :: rest → a.code = op :: code →
    op.name = .get_captures → op.operands = [capture] → a.capture capture = some address →
    ∀ cell ∈ (s.captures address).take op.numResults, s.CellLive (ids s.activations) cell

/-- A function value can be read that has captured a cell of an activation that has returned. -/
def Dangles (s : State ι V) : Prop :=
  ∃ body capture cell, s.Holds s.activations [] (.fcn body capture) ∧
    cell ∈ s.captures capture ∧ ¬ s.CellLive (ids s.activations) cell

theorem Live.readsLive (hlive : s.Live) : s.ReadsLive := by
  intro a rest op code capture address hs hcode hname hoperands hcapture cell hcell
  exact (arrayLive_capture hlive hs hcapture).2 cell (List.mem_of_mem_take hcell)

theorem Live.not_dangles (hlive : s.Live) : ¬ s.Dangles := by
  rintro ⟨body, capture, cell, hheld, hcell, hdead⟩
  exact hdead ((hlive.functions body capture hheld).2 cell hcell)

/-- The return of an activation leaves a dangling function value exactly if one escapes. -/
theorem Live.escapes_iff {interp : Interp ι V} (hlive : s.Live)
    (hstep : Activations.step interp s = some s') : s.Escapes ↔ s'.Dangles := by
  constructor
  · rintro ⟨a, rest, op, code, objs, body, capture, cell, hs, hcode, hname, hobjs, hheld, hcell,
      howner⟩
    have hleave : s' = s.leave rest objs := by
      simp only [Activations.step, hs, hcode, Activations.exec, hname, hobjs] at hstep
      simpa [wrapOps, rawOps] using hstep.symm
    rw [hleave]
    refine ⟨body, capture, cell, hheld, hcell, fun hcellLive ↦ ?_⟩
    have hnodup := hlive.nodup
    rw [hs] at hnodup
    have hmem := hcellLive.2
    rw [ids_leave] at hmem
    apply (List.nodup_cons.mp hnodup).1
    rw [← howner]
    exact hmem
  · intro hdangles
    by_contra hescape
    exact (hlive.step hescape hstep).not_dangles hdangles

end

end State

/-- A step at which no function value escapes. -/
def SafeStep [DecidableEq ι] (interp : Interp ι V) (s s' : State ι V) : Prop :=
  ¬ s.Escapes ∧ step interp s = some s'

/-- In a run in which no function value survives the return of an activation whose cells it has
captured, every capture that is read holds live cells. A step violates the condition exactly if
it leaves a function value that has captured a released cell. -/
theorem captures_live [DecidableEq ι] (interp : Interp ι V) (main : Region ι) {s : State ι V}
    (hrun : Relation.ReflTransGen (SafeStep interp) (State.initial interp main) s) :
    s.ReadsLive ∧ ∀ s', step interp s = some s' → (s.Escapes ↔ s'.Dangles) := by
  have hlive : s.Live := by
    induction hrun with
    | refl => exact State.live_initial interp main
    | tail _ hstep ih => exact ih.step hstep.1 hstep.2
  exact ⟨hlive.readsLive, fun s' hstep ↦ hlive.escapes_iff hstep⟩

/-! ## Two programs -/

def intInterp : Interp ℕ ℤ where
  nil := 0
  scalar op _ := match op.attr with
    | .int n => n
    | _ => 0
  truthy _ := true
  index _ := 0

/-- `function () return x end`, where `x` is its only capture -/
def readerOp (id : ℕ) (x : Value ℕ) : Op ℕ :=
  .mk id .pack_func .none [x] 1 [] [[.mk (.new id 1) 2 [
    create (id + 1) .get_captures [.arg (.new id 1) 0] 1,
    create (id + 2) .unpack [.arg (.new id 1) 1] 0,
    .mk (id + 3) .ret (.segments 1 0) [.res (id + 1) 0] 0 [] []]]]

/-- `local x = 1; (function () return x end)()` -/
def callReader : Region ℕ := [.mk (.entry 0 0) 0 [
  .mk 1 .const_number (.int 1) [] 1 [] [],
  readerOp 2 (.res 1 0),
  makeConcat 6 [] [],
  create 7 .call [.res 2 0, .res 6 0] 1]]

/-- `local make = function (x) return function () return x end end; make(1)()` -/
def returnReader : Region ℕ := [.mk (.entry 0 0) 0 [
  .mk 1 .pack_func .none [] 1 [] [[.mk (.new 1 1) 2 [
    create 2 .get_captures [.arg (.new 1 1) 0] 0,
    create 3 .unpack [.arg (.new 1 1) 1] 1,
    readerOp 4 (.res 3 0),
    .mk 8 .ret (.segments 1 0) [.res 4 0] 0 [] []]]],
  .mk 9 .const_number (.int 1) [] 1 [] [],
  makeConcat 10 [.res 9 0] [],
  create 11 .call [.res 1 0, .res 10 0] 1,
  create 12 .unpack [.res 11 0] 1,
  makeConcat 13 [] [],
  create 14 .call [.res 12 0, .res 13 0] 1]]

theorem State.not_escapes {s : State ι V} [DecidableEq ι] {a : Activation ι V}
    {rest : List (Activation ι V)} {op : Op ι} {code : List (Op ι)}
    (hs : s.activations = a :: rest) (hcode : a.code = op :: code) (hname : op.name ≠ .ret) :
    ¬ s.Escapes := by
  rintro ⟨a', rest', op', code', objs, body, capture, cell, hs', hcode', hname', -⟩
  rw [hs] at hs'
  obtain ⟨rfl, -⟩ := List.cons.inj hs'
  rw [hcode] at hcode'
  obtain ⟨rfl, -⟩ := List.cons.inj hcode'
  exact hname hname'

def steps [DecidableEq ι] (interp : Interp ι V) : ℕ → State ι V → Option (State ι V)
  | 0, s => some s
  | n + 1, s => (steps interp n s).bind (step interp)

theorem reflTransGen_steps [DecidableEq ι] {interp : Interp ι V} {n : ℕ} {s s' : State ι V}
    (hsteps : steps interp n s = some s') :
    Relation.ReflTransGen (fun s s' ↦ step interp s = some s') s s' := by
  induction n generalizing s' with
  | zero =>
    obtain rfl := Option.some.inj hsteps
    exact .refl
  | succ n ih =>
    obtain ⟨s₁, hsteps, hstep⟩ := Option.bind_eq_some_iff.mp hsteps
    exact (ih hsteps).tail hstep

theorem captures_live_callReader : ∃ s, steps intInterp 4 (State.initial intInterp callReader) =
    some s ∧ s.ReadsLive := by
  have hrun : Relation.ReflTransGen (SafeStep intInterp) (State.initial intInterp callReader) _ :=
    (((Relation.ReflTransGen.single ⟨State.not_escapes rfl rfl (by decide), rfl⟩).tail
      ⟨State.not_escapes rfl rfl (by decide), rfl⟩).tail
      ⟨State.not_escapes rfl rfl (by decide), rfl⟩).tail
      ⟨State.not_escapes rfl rfl (by decide), rfl⟩
  exact ⟨_, rfl, (captures_live intInterp callReader hrun).1⟩

/-- The function returned by `make` reads the cell of an activation that has returned. -/
theorem captures_dangle_returnReader : ∃ s,
    Relation.ReflTransGen (fun s s' ↦ step intInterp s = some s')
      (State.initial intInterp returnReader) s ∧ ¬ s.ReadsLive := by
  refine ⟨_, reflTransGen_steps (n := 11) rfl, fun hlive ↦ ?_⟩
  have hcell := hlive _ _ _ _ _ _ rfl rfl rfl rfl rfl 2 (by decide)
  exact absurd hcell.2 (by decide)

end DeclarativeMlir.Lua.Activations
