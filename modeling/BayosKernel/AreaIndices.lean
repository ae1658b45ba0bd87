import Mathlib.Data.List.TakeWhile
import BayosKernel.AreaLayout

/-!
`bitmap_allocator_init` entry by entry, with the indices that it stores at.
-/

namespace BayosKernel

open Foundation

/-- `entry_count`, what was stored to the elements of `ba->areas` and to the words
behind them, and the memory. -/
structure InitState where
  entryCount : Nat
  areas : Nat → Option Nat
  mem : ByteMemory

namespace InitState

def start (m : ByteMemory) : InitState := ⟨0, fun _ => none, m⟩

/-- One turn of the loop of `bitmap_allocator_init`. -/
def step (fuel : Nat) (st : InitState) (entry : MemmapEntry) : Option InitState :=
  if entry.Gives then
    (entry.split fuel).map fun pages =>
      { entryCount := st.entryCount + 1,
        areas := Function.update st.areas st.entryCount (some entry.base),
        mem := initArea st.mem entry pages.1 pages.2 }
  else some st

end InitState

def initMachine (fuel : Nat) : Machine InitState MemmapEntry := ⟨InitState.step fuel⟩

/-- What is asked of every state that the loop reaches, `areas_count` at its end included. -/
structure StaysInside (memmap : List MemmapEntry) (m : ByteMemory) (st : InitState) : Prop where
  indices : ∀ k, st.areas k ≠ none → k < 0x100
  count : st.entryCount ≤ 0x100
  writes : ∀ x, (∀ e ∈ memmap, e.Usable → x ∉ e.range) → st.mem x = m x

/-- The state behind the entries `seen`. -/
structure Scanned (m : ByteMemory) (seen : List MemmapEntry) (st : InitState) : Prop where
  count : st.entryCount = seen.countP fun e => decide e.Gives
  indices : ∀ k, st.areas k ≠ none ↔ k < st.entryCount
  writes : ∀ x, (∀ e ∈ seen, e.Usable → x ∉ e.range) → st.mem x = m x

namespace Scanned

variable {m : ByteMemory} {fuel : Nat} {seen run : List MemmapEntry} {st st' : InitState}

theorem start (m : ByteMemory) : Scanned m [] (InitState.start m) :=
  ⟨rfl, fun k => by simp [InitState.start], fun _ _ => rfl⟩

theorem step (h : Scanned m seen st) {e : MemmapEntry} (hstep : st.step fuel e = some st') :
    Scanned m (seen ++ [e]) st' := by
  rw [InitState.step] at hstep
  by_cases hgives : e.Gives
  · rw [if_pos hgives] at hstep
    obtain ⟨pages, hsplit, rfl⟩ := Option.map_eq_some_iff.mp hstep
    obtain ⟨harea, hframe⟩ := initArea_entry st.mem hgives hsplit
    have hstop := harea.split.stop
    refine ⟨?_, fun k => ?_, fun x hx => ?_⟩
    · rw [List.countP_append, List.countP_singleton, if_pos (by simpa using hgives), ← h.count]
    · change Function.update st.areas st.entryCount (some e.base) k ≠ none ↔
        k < st.entryCount + 1
      by_cases hk : k = st.entryCount
      · rw [hk, Function.update_self]
        simp
      · rw [Function.update_of_ne hk, h.indices]
        omega
    · have houtside : x ∉ e.range := hx e (by simp) hgives.1
      rw [MemmapEntry.range, Set.mem_Ico] at houtside
      have hsame := hframe x (by omega)
      exact hsame.trans (h.writes x fun f hf => hx f (List.mem_append_left _ hf))
  · rw [if_neg hgives] at hstep
    cases hstep
    refine ⟨?_, h.indices, fun x hx => h.writes x fun f hf => hx f (List.mem_append_left _ hf)⟩
    rw [List.countP_append, List.countP_singleton, if_neg (by simpa using hgives), h.count]
    rfl

theorem exec (h : Scanned m seen st) (hrun : (initMachine fuel).exec st run = some st') :
    Scanned m (seen ++ run) st' := by
  induction run generalizing seen st with
  | nil =>
      cases hrun
      rwa [List.append_nil]
  | cons e run ih =>
      obtain ⟨st₁, hstep, hrest⟩ := (initMachine fuel).exec_cons_some hrun
      have hnext := ih (h.step hstep) hrest
      rwa [List.append_assoc, List.singleton_append] at hnext

theorem of_start (hrun : (initMachine fuel).exec (InitState.start m) run = some st) :
    Scanned m run st := by
  have h := (start m).exec hrun
  rwa [List.nil_append] at h

end Scanned

/-- The state that `initAreas` leaves when it stores its list from `st.entryCount` on. -/
def InitState.store (st : InitState) (r : ByteMemory × List Nat) : InitState where
  entryCount := st.entryCount + r.2.length
  areas := fun k =>
    if st.entryCount ≤ k ∧ k < st.entryCount + r.2.length then r.2[k - st.entryCount]?
    else st.areas k
  mem := r.1

theorem InitState.store_cons (st : InitState) (a : Nat) (m m' : ByteMemory) (areas : List Nat) :
    InitState.store ⟨st.entryCount + 1, Function.update st.areas st.entryCount (some a), m⟩
        (m', areas) = st.store (m', a :: areas) := by
  simp only [store, InitState.mk.injEq, List.length_cons, and_true]
  refine ⟨by omega, funext fun k => ?_⟩
  by_cases hk : k = st.entryCount
  · subst hk
    rw [if_neg (by omega), if_pos (by omega), Function.update_self, Nat.sub_self]
    rfl
  · by_cases hin : st.entryCount + 1 ≤ k ∧ k < st.entryCount + 1 + areas.length
    · rw [if_pos hin, if_pos (by omega),
        show k - st.entryCount = k - (st.entryCount + 1) + 1 by omega]
      rfl
    · rw [if_neg hin, if_neg (by omega), Function.update_of_ne hk]

theorem InitState.store_nil (st : InitState) : st.store (st.mem, []) = st := by
  obtain ⟨n, areas, m⟩ := st
  simp only [store, List.length_nil, Nat.add_zero, InitState.mk.injEq, and_true, true_and]
  funext k
  exact if_neg (by omega)

/-- Entry by entry the loop stores the areas of `initAreas`, each at its index. -/
theorem initMachine_exec (fuel : Nat) (entries : List MemmapEntry) (st : InitState) :
    (initMachine fuel).exec st entries = (initAreas fuel entries st.mem).map st.store := by
  induction entries generalizing st with
  | nil => exact congrArg some st.store_nil.symm
  | cons e rest ih =>
      rw [Machine.exec, initAreas]
      by_cases hgives : e.Gives
      · have hstep : (initMachine fuel).step st e = (e.split fuel).map fun pages =>
            ⟨st.entryCount + 1, Function.update st.areas st.entryCount (some e.base),
              initArea st.mem e pages.1 pages.2⟩ := if_pos hgives
        rw [if_pos hgives, hstep]
        cases e.split fuel with
        | none => rfl
        | some pages =>
            rw [Option.map_some, Option.bind_some, Option.bind_some, Option.map_map, ih]
            exact congrArg (Option.map · _) (funext fun r => st.store_cons e.base _ r.1 r.2)
      · have hstep : (initMachine fuel).step st e = some st := if_neg hgives
        rw [if_neg hgives, hstep, Option.bind_some]
        exact ih st

/-- `calc_header_pages` does not come back from the entry. -/
def MemmapEntry.Hangs (e : MemmapEntry) : Prop := e.Gives ∧ (e.pageCount + 191) % 32769 = 0

instance (e : MemmapEntry) : Decidable e.Hangs := by
  unfold MemmapEntry.Hangs
  infer_instance

/-- The entries that the loop gets past. -/
def passedEntries (memmap : List MemmapEntry) : List MemmapEntry :=
  (scannedEntries memmap).takeWhile fun e => !decide e.Hangs

theorem passedEntries_scanned (memmap : List MemmapEntry) :
    passedEntries memmap <+: scannedEntries memmap :=
  List.takeWhile_prefix _

/-- The loop comes to the state behind the entries that it gets past. -/
theorem initMachine_passed (memmap : List MemmapEntry) (m : ByteMemory) :
    ∃ st, (initMachine 6).exec (InitState.start m) (passedEntries memmap) = some st ∧
      Scanned m (passedEntries memmap) st := by
  have hsome : (initAreas 6 (passedEntries memmap) m).isSome := by
    refine (initAreas_isSome _ m).mpr fun e he hgives => ?_
    rw [passedEntries] at he
    have hpassed := List.mem_takeWhile_imp he
    refine MemmapEntry.split_isSome hgives fun hrem => ?_
    have hhangs : e.Hangs := ⟨hgives, hrem⟩
    simp [hhangs] at hpassed
  obtain ⟨r, hinit⟩ := Option.isSome_iff_exists.mp hsome
  have hrun := initMachine_exec 6 (passedEntries memmap) (InitState.start m)
  rw [show (InitState.start m).mem = m from rfl, hinit, Option.map_some] at hrun
  exact ⟨_, hrun, Scanned.of_start hrun⟩

/-- It gets to no others. -/
theorem passed_of_exec {fuel : Nat} {memmap run : List MemmapEntry} {m : ByteMemory}
    {st : InitState} (hscan : run <+: scannedEntries memmap)
    (hrun : (initMachine fuel).exec (InitState.start m) run = some st) :
    run <+: passedEntries memmap := by
  have hsome : (initAreas fuel run m).isSome := by
    rw [initMachine_exec] at hrun
    obtain ⟨r, hinit, -⟩ := Option.map_eq_some_iff.mp hrun
    exact Option.isSome_iff_exists.mpr ⟨r, hinit⟩
  have hall : ∀ e ∈ run, (!decide e.Hangs) = true := by
    intro e he
    have hnot : ¬e.Hangs := fun hhangs =>
      MemmapEntry.split_rem hhangs.1 ((initAreas_isSome _ m).mp hsome e he hhangs.1) hhangs.2
    simpa using hnot
  obtain ⟨rest, hrest⟩ := hscan
  refine ⟨rest.takeWhile fun e => !decide e.Hangs, ?_⟩
  rw [passedEntries, ← hrest, List.takeWhile_append_of_pos hall]

/-- Each state that `bitmap_allocator_init` reaches has stored at indices of the
array only, if and only if at most 0x100 of the entries that it gets past give an area. -/
theorem bitmapAllocatorInit_inside_iff (memmap : List MemmapEntry) :
    (∀ fuel m run st, run <+: scannedEntries memmap →
      (initMachine fuel).exec (InitState.start m) run = some st → StaysInside memmap m st) ↔
    (passedEntries memmap).countP (fun e => decide e.Gives) ≤ 0x100 := by
  constructor
  · intro h
    obtain ⟨st, hrun, hscanned⟩ := initMachine_passed memmap fun _ => 0
    have hcount := (h 6 _ _ st (passedEntries_scanned memmap) hrun).count
    rwa [hscanned.count] at hcount
  · intro hfew fuel m run st hscan hrun
    have hscanned := Scanned.of_start hrun
    have hcount : st.entryCount ≤ 0x100 := by
      rw [hscanned.count]
      exact Nat.le_trans ((passed_of_exec hscan hrun).sublist.countP_le) hfew
    refine ⟨fun k hk => ?_, hcount, fun x hx => hscanned.writes x fun e he => ?_⟩
    · have := (hscanned.indices k).mp hk
      omega
    · exact hx e ((scannedEntries_sublist memmap).subset (hscan.subset he))

/-- 257 entries of two usable pages each, with gaps between them. -/
def manyEntries : List MemmapEntry :=
  List.ofFn fun k : Fin 257 => ⟨0x100000 + 0x4000 * k, 0x2000, 0, by omega⟩

/-- The last area of `manyEntries` is stored behind the array. -/
theorem bitmapAllocatorInit_manyEntries :
    ¬∀ memmap fuel m run st, run <+: scannedEntries memmap →
      (initMachine fuel).exec (InitState.start m) run = some st → StaysInside memmap m st := by
  intro h
  obtain ⟨st, hrun, hscanned⟩ := initMachine_passed manyEntries fun _ => 0
  have hcount := (h manyEntries 6 _ _ st (passedEntries_scanned manyEntries) hrun).count
  rw [hscanned.count] at hcount
  revert hcount
  decide +kernel

end BayosKernel
