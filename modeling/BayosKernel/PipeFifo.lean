import BayosKernel.PipeCalls

/-!
The pipe is a queue whenever its writers are processes only or the keyboard
interrupt only. With writers of both kinds it is a queue exactly as long as no
interrupt stores a byte while a process is in its update of the ring.
-/

namespace BayosKernel

open Foundation

/-- No process is inside `pipe_write`. -/
def PipeState.NoWriter (st : PipeState) : Prop := ∀ p, (st.code p).progress = none

namespace PipeState.NoWriter

variable {st : PipeState} (h : st.NoWriter)

include h

theorem goto {st' : PipeState} {b : PipePoint} (hcode : st'.code = st.code)
    (hb : b.progress = none) : (st'.goto b).NoWriter := by
  intro p
  by_cases hp : p = st'.current
  · simp [PipeState.goto, hp, hb]
  · simpa [PipeState.goto, hp, hcode] using h p

theorem waitOn (s : Ptr) : (st.waitOn s).NoWriter := by
  unfold PipeState.waitOn
  simp only
  split
  · exact h.goto rfl (by rw [PipePoint.afterWait_progress, h])
  · exact h

theorem statement {st' : PipeState} (hs : st.statement (st.code st.current) = some st') :
    st'.NoWriter := by
  have hcur := h st.current
  cases hcode : st.code st.current with
  | idle result => simp [hcode, PipeState.statement] at hs
  | writeWait w | writeCheck w | writeLock w | writeSlot w | writeStore w _ | writeLoad w
  | writeSet w _ | writeUnlock w | writeSignal w => simp [hcode, PipePoint.progress] at hcur
  | readWait r | readLock r =>
      simp only [hcode, PipeState.statement, Option.some.injEq] at hs
      subst hs
      exact h.waitOn _
  | readLoad r | readMove r | readUnlock r | readSignal r =>
      simp only [hcode, PipeState.statement, Option.some.injEq] at hs
      subst hs
      exact h.goto rfl rfl
  | readNext r =>
      simp only [hcode, PipeState.statement] at hs
      split at hs <;> cases hs
      · split <;> exact h.goto rfl rfl
      · exact h.goto rfl rfl

end PipeState.NoWriter

/-- Only a call of `pipe_write` makes a writer. -/
theorem pipeMachine_noWriter {fuel : Nat} {st st' : PipeState} {a : PipeAction}
    (h : st.NoWriter) (hread : ∀ data, a ≠ .callWrite data)
    (hs : (pipeMachine fuel).step st a = some st') : st'.NoWriter := by
  cases a with
  | callWrite data => exact absurd rfl (hread data)
  | callRead len =>
      simp only [pipeMachine] at hs
      split at hs
      · cases hs
        unfold PipeState.pipeRead
        repeat' split
        all_goals exact h.goto rfl rfl
      · cases hs
  | run context =>
      simp only [pipeMachine] at hs
      split at hs
      · obtain ⟨sem, hsem, rfl⟩ := Option.map_eq_some_iff.mp hs
        exact h
      · cases hs
        exact h.goto rfl (by rw [PipePoint.afterWait_progress, h])
      · exact h.statement hs
  | tick context =>
      obtain ⟨sem, hsem, rfl⟩ := Option.map_eq_some_iff.mp hs
      exact h
  | keyboard byte =>
      cases hs
      have hcode : (st.pipeTryWrite byte).1.code = st.code := by
        unfold PipeState.pipeTryWrite
        simp only
        repeat' split
        all_goals rfl
      intro p
      rw [hcode]
      exact h p

/-- A run without one of the two kinds of writers has its interrupts at clear moments. -/
theorem meets_clear {fuel : Nat} {l : List Ptr} {bufferLen : Nat} {st₀ : PipeState}
    {run : List PipeAction} (init : PipeInit l bufferLen st₀)
    (alone : (∀ byte, .keyboard byte ∉ run) ∨ ∀ data, .callWrite data ∉ run) :
    (pipeMachine fuel).Meets (fun st a => a.Clear l st) st₀ run := by
  rcases alone with hkey | hcall
  · refine (pipeMachine fuel).meets_of_mem st₀ run fun a ha st => ?_
    cases a with
    | keyboard byte => exact absurd ha (hkey byte)
    | _ => trivial
  · have hC : (pipeMachine fuel).Meets (fun _ a => ∀ data, a ≠ .callWrite data) st₀ run :=
      (pipeMachine fuel).meets_of_mem st₀ run fun a ha _ data hd => hcall data (hd ▸ ha)
    refine (pipeMachine fuel).meets_of_invariant (I := PipeState.NoWriter)
      (fun _ _ _ h hread hs => pipeMachine_noWriter h hread hs) (fun st a h _ => ?_)
      (fun p => by rw [init.idle p]; rfl) hC
    cases a with
    | keyboard byte =>
        intro _ p _
        have := h p
        cases hc : st.code p <;> simp_all [PipePoint.progress, PipePoint.updating]
    | _ => trivial

/-- In every run in which processes read and write the pipe, and in every run in
which processes read it and the keyboard interrupt writes it, the pipe is a queue. -/
theorem pipeMachine_fifo (fuel : Nat) (l : List Ptr) (bufferLen : Nat) (st₀ st : PipeState)
    (run : List PipeAction) (init : PipeInit l bufferLen st₀) (len_pos : 1 ≤ bufferLen)
    (len_lt : bufferLen < 0x80000000)
    (alone : (∀ byte, .keyboard byte ∉ run) ∨ ∀ data, .callWrite data ∉ run)
    (reached : (pipeMachine fuel).exec st₀ run = some st) : Fifo st := by
  obtain ⟨ha, hr, hc⟩ := pipeMachine_invariant init len_pos len_lt (meets_clear init alone) reached
  exact hr.fifo ha hc

/-- Two processes in the kernel heap and a pipe of four slots. -/
def pipeUsers : PipeState :=
  let before : Kernel :=
    { sched :=
        { procs := fun p => { Process.zeroed with
            next := if p = kernelHeap + 32 then kernelHeap + 256 else NULL }
          processList := kernelHeap + 32
          currentProcess := kernelHeap + 32 }
      sems := fun _ => semCreate 0 }
  let (kernel, pipe) := pipeCreate before (fun _ => 0) 4 (kernelHeap + 512)
  { sem := { kernel := kernel, point := fun _ => .outside, history := [] }
    pipe := pipe, code := fun _ => .idle none, calls := [], stored := [], taken := [] }

theorem pipeUsers_init : PipeInit [kernelHeap + 32, kernelHeap + 256] 4 pipeUsers where
  sem :=
    { listed := by
        simp [Scheduler.Listed, Scheduler.next, pipeUsers, pipeCreate, Kernel.setSem, kernelHeap]
      current_mem := by
        simp [SemState.current, Kernel.current, pipeUsers, pipeCreate, Kernel.setSem]
      created := fun s => by
        by_cases h2 : s = kernelHeap + 512 + 2 * sizeofSemaphore
        · exact ⟨0, by decide, by decide, by simp [pipeUsers, pipeCreate, Kernel.setSem, h2]⟩
        · by_cases h1 : s = kernelHeap + 512 + sizeofSemaphore
          · exact ⟨4, by decide, by decide, by
              simp [pipeUsers, pipeCreate, Kernel.setSem, h1, sizeofSemaphore]; decide⟩
          · by_cases h0 : s = kernelHeap + 512
            · exact ⟨1, by decide, by decide, by
                simp [pipeUsers, pipeCreate, Kernel.setSem, h0, sizeofSemaphore]⟩
            · exact ⟨0, by decide, by decide, by
                simp [pipeUsers, pipeCreate, Kernel.setSem, h0, h1, h2]⟩
      unblocked := fun p => by
        simp [SemState.status, Kernel.status, Scheduler.status, pipeUsers, pipeCreate,
          Kernel.setSem, Process.zeroed]
      outside := fun p => rfl
      history := rfl }
  created := ⟨_, _, _, rfl⟩
  inHeap := by decide
  idle p := rfl
  calls := rfl
  stored := rfl
  taken := rfl

/-- One process writes two bytes, the other one is let in after the first. -/
def writeAndRead : List PipeAction :=
  .callWrite [7, 9] :: List.replicate 10 (.run 0) ++ .tick 0 :: .callRead 2 ::
    List.replicate 7 (.run 0)

theorem pipeMachine_fifo_writeAndRead : ∃ st,
    (pipeMachine 3).exec pipeUsers writeAndRead = some st ∧ st.taken = [7] ∧ Fifo st := by
  have htaken : ((pipeMachine 3).exec pipeUsers writeAndRead).map PipeState.taken = some [7] := by
    decide +kernel
  obtain ⟨st, hst, htaken⟩ := Option.map_eq_some_iff.mp htaken
  exact ⟨st, hst, htaken, pipeMachine_fifo 3 [kernelHeap + 32, kernelHeap + 256] 4 pipeUsers st
    writeAndRead pipeUsers_init (by decide) (by decide) (.inl (by simp [writeAndRead])) hst⟩

end BayosKernel
