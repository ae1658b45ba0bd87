import BayosKernel.PipeFifo

/-!
`pipe_try_write` next to `pipe_write`: what its missing `buf_lock` costs.

An interrupt that stores a byte while a process is between the evaluation of
`p->write_pos` for its store and the update of `write_pos` puts both bytes into
one slot. At every other moment the two bytes get slots of their own.
-/

namespace BayosKernel

open Foundation

/-- Every stored byte has a slot of its own until it is read, also against the
store a writer is about to make; `write_pos` advances by one for each byte; the
bytes are taken in the order in which they were stored, each once. -/
structure OwnSlots (l : List Ptr) (st : PipeState) : Prop where
  alone : ∀ i j e e', st.stored[i]? = some e → st.stored[j]? = some e' →
    st.taken.length ≤ i → i < j → e.slot ≠ e'.slot
  kept : ∀ j e, st.stored[j]? = some e → st.taken.length ≤ j → st.pipe.buffer e.slot = e.byte
  pending : ∀ p w slot, st.code p = .writeStore w slot → ∀ j e, st.stored[j]? = some e →
    st.taken.length ≤ j → e.slot ≠ slot
  position : (∀ p ∈ l, (st.code p).updating = false) →
    st.pipe.writePos = st.stored.length % st.pipe.bufferLen
  delivered : st.taken <+: st.stored.map Stored.byte

section

variable {l : List Ptr} {n : Ptr → Int} {st : PipeState}

theorem Ring.ownSlots (h : Ring l st) (ha : Accounts l n st) : OwnSlots l st where
  alone i j e e' hi hj hle hij := by
    rw [h.slots i e hi, h.slots j e' hj]
    have := ha.unread_le
    have := (List.getElem?_eq_some_iff.mp hj).1
    exact slot_ne hle hij (by omega)
  kept j e he hj := by
    rw [h.slots j e he]
    exact h.log j e.byte hj (by simp [he])
  pending p w slot hp j e he hj := by
    have hslot : (st.code p).has .slot = true := by rw [hp]; rfl
    have := st.number_pos (ha.mem_of_has hslot) hslot
    have := ha.unread_le
    rw [h.slots j e he, h.pendingStore p w slot hp]
    exact slot_ne hj (List.getElem?_eq_some_iff.mp he).1 (by omega)
  position hup := by
    have hadv : st.number l .advance = 0 :=
      tally_eq_zero fun p hp => PipePoint.advance_of_not_updating (hup p hp)
    rw [h.writePos, hadv, Nat.sub_zero]
  delivered := by
    rw [h.taken]
    exact List.take_prefix _ _

theorem PipeState.pipeTryWrite_last (hq : Queues st.sem) (ht : st.TakesPermit) (byte : UInt8) :
    (st.pipeTryWrite byte).1.stored[st.stored.length]? = some ⟨none, st.pipe.writePos, byte⟩ := by
  rw [pipeTryWrite_stored hq ht]
  simp

/-- A writer has evaluated its slot: the interrupt takes the same slot. -/
theorem Ring.slot_taken (h : Ring l st) (ha : Accounts l n st) (ht : st.TakesPermit)
    {p : Ptr} {w : WriteCall} {slot : Nat} (hp : st.code p = .writeStore w slot) (byte : UInt8) :
    ¬OwnSlots l (st.pipeTryWrite byte).1 := by
  intro hown
  have hadv := ha.number_eq_zero PipePoint.lock_of_advance (p := p) (by rw [hp]; rfl)
    (by rw [hp]; rfl)
  have hlast := PipeState.pipeTryWrite_last ha.queues ht byte
  have hle := ha.taken_le
  rw [PipeState.pipeTryWrite_stored ha.queues ht] at hown hlast
  refine hown.pending p w slot hp _ _ hlast ?_ ?_
  · simp only
    omega
  · rw [h.writePos, hadv, h.pendingStore p w slot hp, Nat.sub_zero]

/-- A writer has stored and not moved `write_pos` yet: the interrupt overwrites its byte. -/
theorem Ring.byte_overwritten (h : Ring l st) (ha : Accounts l n st) (ht : st.TakesPermit)
    {p : Ptr} (hp : (st.code p).has .advance = true) (hbyte : (st.code p).has .byte = true)
    (byte : UInt8) : ¬OwnSlots l (st.pipeTryWrite byte).1 := by
  intro hown
  have hadv := ha.number_eq_one PipePoint.lock_of_advance hp
  have hlast := PipeState.pipeTryWrite_last ha.queues ht byte
  have hle := ha.taken_le
  have hpos := st.number_pos (ha.mem_of_has hbyte) hbyte
  have hlt : st.stored.length - 1 < st.stored.length := by omega
  have hprev := List.getElem?_eq_getElem hlt
  rw [PipeState.pipeTryWrite_stored ha.queues ht] at hown hlast
  refine hown.alone _ _ _ _ (by rw [List.getElem?_append_left hlt]; exact hprev) hlast ?_ hlt ?_
  · simp only
    omega
  · rw [h.slots _ _ hprev, h.writePos, hadv]

/-- At each moment, an interrupt that stores a byte keeps the slots apart
exactly if no process is in its update of the ring. -/
theorem Ring.keyboard_ownSlots (h : Ring l st) (ha : Accounts l n st) (ht : st.TakesPermit)
    (byte : UInt8) :
    OwnSlots l (st.pipeTryWrite byte).1 ↔ ∀ p ∈ l, (st.code p).updating = false := by
  constructor
  · intro hown p _
    by_contra hup
    cases hc : st.code p with
    | writeStore w slot => exact h.slot_taken ha ht hc byte hown
    | writeLoad w | writeSet w v =>
        exact h.byte_overwritten ha ht (p := p) (by rw [hc]; rfl) (by rw [hc]; rfl) byte hown
    | _ => exact hup (by rw [hc]; rfl)
  · intro hup
    exact (h.keyboard ha fun _ => hup).ownSlots (ha.keyboard byte)

end

/-- In every run whose storing interrupts find no process in its update of the
ring, every byte keeps its own slot in every state reached; and in each such
state the next storing interrupt keeps this exactly if it comes at such a moment. -/
theorem pipeMachine_ownSlots (fuel : Nat) (l : List Ptr) (bufferLen : Nat) (st₀ st : PipeState)
    (run : List PipeAction) (init : PipeInit l bufferLen st₀) (len_pos : 1 ≤ bufferLen)
    (len_lt : bufferLen < 0x80000000)
    (clear : (pipeMachine fuel).Meets (fun st a => a.Clear l st) st₀ run)
    (reached : (pipeMachine fuel).exec st₀ run = some st) :
    OwnSlots l st ∧ ∀ byte, st.TakesPermit →
      (OwnSlots l (st.pipeTryWrite byte).1 ↔ ∀ p ∈ l, (st.code p).updating = false) := by
  obtain ⟨ha, hr, _⟩ := pipeMachine_invariant init len_pos len_lt clear reached
  exact ⟨hr.ownSlots ha, fun byte ht => hr.keyboard_ownSlots ha ht byte⟩

/-- A key is pressed while the lock is held, after the update of `write_pos`. -/
def keyAfterUpdate : List PipeAction :=
  .callWrite [7] :: List.replicate 7 (.run 0) ++ [.keyboard 9, .run 0]

theorem pipeMachine_ownSlots_keyAfterUpdate : ∃ st,
    (pipeMachine 3).exec pipeUsers keyAfterUpdate = some st ∧
      OwnSlots [kernelHeap + 32, kernelHeap + 256] st := by
  have hsome : ((pipeMachine 3).exec pipeUsers keyAfterUpdate).isSome = true := by decide +kernel
  obtain ⟨st, hst⟩ := Option.isSome_iff_exists.mp hsome
  exact ⟨st, hst, (pipeMachine_ownSlots 3 [kernelHeap + 32, kernelHeap + 256] 4 pipeUsers st
    keyAfterUpdate pipeUsers_init (by decide) (by decide) (by decide +kernel) hst).1⟩

/-- A key is pressed after the slot of the byte 7 was evaluated; both bytes are read back. -/
def keyInUpdate : List PipeAction :=
  .callWrite [7] :: List.replicate 4 (.run 0) ++ .keyboard 9 :: List.replicate 6 (.run 0) ++
    .callRead 2 :: List.replicate 9 (.run 0)

/-- Both bytes went to slot 0, `write_pos` moved by two, and the reader gets the
byte 7 and one that nobody wrote. -/
theorem keyInUpdate_loses_byte : ∃ st,
    (pipeMachine 3).exec pipeUsers keyInUpdate = some st ∧
      st.stored = [⟨none, 0, 9⟩, ⟨some 0, 0, 7⟩] ∧ st.pipe.writePos = 2 ∧ st.taken = [7, 0] ∧
      ¬OwnSlots [kernelHeap + 32, kernelHeap + 256] st := by
  have hrun : ((pipeMachine 3).exec pipeUsers keyInUpdate).map
      (fun st => (st.stored, st.pipe.writePos, st.taken)) =
      some ([⟨none, 0, 9⟩, ⟨some 0, 0, 7⟩], 2, [7, 0]) := by decide +kernel
  obtain ⟨st, hst, heq⟩ := Option.map_eq_some_iff.mp hrun
  simp only [Prod.mk.injEq] at heq
  obtain ⟨hstored, hpos, htaken⟩ := heq
  refine ⟨st, hst, hstored, hpos, htaken, fun hown => ?_⟩
  have := hown.delivered
  rw [hstored, htaken] at this
  revert this
  decide

end BayosKernel
