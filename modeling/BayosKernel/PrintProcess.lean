import BayosKernel.PipeFifo
import BayosKernel.Terminal

/-!
`framebuffer_print_process` beside the processes that write to its pipe: what they have
written and what the screen shows of it.

No other function takes the mutex of the framebuffer, so `putchar` is one step.
-/

namespace BayosKernel

open Foundation

/-- The call of `pipe_read` that a process is in. -/
def PipePoint.reader : PipePoint → Option ReadCall
  | .readWait r | .readLock r | .readLoad r | .readMove r | .readUnlock r | .readSignal r
  | .readNext r => some r
  | _ => none

/-- What a step that takes no byte makes of the point of its process. -/
inductive ReadTurn : PipePoint → PipePoint → Prop
  | stay (pt : PipePoint) : ReadTurn pt pt
  | write {pt pt' : PipePoint} (h : pt.progress.isSome) (h' : pt'.reader = none) : ReadTurn pt pt'
  | lock (r : ReadCall) : ReadTurn (.readWait r) (.readLock r)
  | load (r : ReadCall) : ReadTurn (.readLock r) (.readLoad r)
  | unlock (r : ReadCall) : ReadTurn (.readMove r) (.readUnlock r)
  | signal (r : ReadCall) : ReadTurn (.readUnlock r) (.readSignal r)
  | next (r : ReadCall) : ReadTurn (.readSignal r) (.readNext r)
  | more {r : ReadCall} (h : r.out.length < r.len) : ReadTurn (.readNext r) (.readLock r)
  | back (r : ReadCall) : ReadTurn (.readNext r) (.idle (some (int32 r.out.length)))

/-- Where `sem_wait` leads. -/
theorem ReadTurn.afterWait {p : Pipe} {pt : PipePoint} {s : Ptr} (h : pt.waitsOn p = some s) :
    ReadTurn pt pt.afterWait := by
  cases pt with
  | writeWait w | writeLock w => exact .write rfl rfl
  | readWait r => exact .lock r
  | readLock r => exact .load r
  | _ => cases h

/-- What a step does to the readers of a pipe: it takes a byte, or it takes none. -/
structure ReadsOn (st st' : PipeState) : Prop where
  writeRefs : st'.pipe.writeRefs = st.pipe.writeRefs
  others : ∀ p, p ≠ st.current → st'.code p = st.code p
  current : (st'.taken = st.taken ∧ ReadTurn (st.code st.current) (st'.code st.current)) ∨
    ∃ r byte, st.code st.current = .readLoad r ∧ st'.taken = st.taken ++ [byte] ∧
      st'.code st.current = .readMove { r with out := r.out ++ [byte] }

namespace ReadsOn

variable {l : List Ptr} {n : Ptr → Int} {st st' : PipeState} {b : PipePoint}

/-- The current process moves on. -/
theorem move (hrefs : st'.pipe.writeRefs = st.pipe.writeRefs)
    (hcode : st'.code = Function.update st.code st.current b) (htaken : st'.taken = st.taken)
    (hturn : ReadTurn (st.code st.current) b) : ReadsOn st st' := by
  refine ⟨hrefs, fun p hp => ?_, Or.inl ⟨htaken, ?_⟩⟩
  · rw [hcode, Function.update_of_ne hp]
  · rwa [hcode, Function.update_self]

theorem still (hrefs : st'.pipe.writeRefs = st.pipe.writeRefs) (hcode : st'.code = st.code)
    (htaken : st'.taken = st.taken) : ReadsOn st st' := by
  refine ⟨hrefs, fun p _ => congrFun hcode p, Or.inl ⟨htaken, ?_⟩⟩
  rw [hcode]
  exact .stay _

theorem waitOn (ha : Accounts l n st) (hout : st.sem.point st.current = .outside) {s : Ptr}
    (hw : (st.code st.current).waitsOn st.pipe = some s) : ReadsOn st (st.waitOn s) := by
  have hnw := ha.wait_noWrap s
  have hcur : (st.sem.wait s).current = st.current := SemState.wait_current ha.queues hnw
  by_cases hpos : 0 < st.sem.count s
  · have hpt : (st.sem.wait s).point = st.sem.point := by
      rw [SemState.wait_of_pos ha.queues hpos]
    have hgo : st.waitOn s =
        PipeState.goto { st with sem := st.sem.wait s } (st.code st.current).afterWait := by
      simp [PipeState.waitOn, hpt, hout]
    rw [hgo]
    exact move rfl (PipeState.goto_code hcur _) rfl (.afterWait hw)
  · have ev := SemState.wait_blocked ha.queues (Int.not_lt.mp hpos) hnw
    have hstay : st.waitOn s = { st with sem := st.sem.wait s } := by
      simp [PipeState.waitOn, ev.point, PipeState.current]
    rw [hstay]
    exact still rfl rfl rfl

theorem signalOn (ha : Accounts l n st) {s : Ptr} (hnw : st.sem.count s + 1 < 0x80000000)
    (hturn : ReadTurn (st.code st.current) b) : ReadsOn st (st.signalOn s b) :=
  move rfl (PipeState.goto_code (SemState.signal_current ha.queues _ hnw) b) rfl hturn

theorem statement (ha : Accounts l n st) (hout : st.sem.point st.current = .outside)
    (hs : st.statement (st.code st.current) = some st') : ReadsOn st st' := by
  cases hcode : st.code st.current with
  | idle result => simp [hcode, PipeState.statement] at hs
  | writeWait w =>
      simp only [hcode, PipeState.statement] at hs
      split at hs <;> cases hs
      · exact waitOn ha hout (by rw [hcode]; rfl)
      · exact move rfl rfl rfl (by rw [hcode]; exact .write rfl rfl)
  | writeCheck w =>
      simp only [hcode, PipeState.statement] at hs
      split at hs <;> cases hs <;> exact move rfl rfl rfl (by rw [hcode]; exact .write rfl rfl)
  | writeLock w | readWait r | readLock r =>
      simp only [hcode, PipeState.statement, Option.some.injEq] at hs
      subst hs
      exact waitOn ha hout (by rw [hcode]; rfl)
  | writeSlot w | writeStore w slot | writeLoad w | writeSet w v =>
      simp only [hcode, PipeState.statement, Option.some.injEq] at hs
      subst hs
      exact move rfl rfl rfl (by rw [hcode]; exact .write rfl rfl)
  | writeUnlock w =>
      simp only [hcode, PipeState.statement, Option.some.injEq] at hs
      subst hs
      exact signalOn ha (ha.lock_noWrap (by rw [hcode]; rfl)) (by rw [hcode]; exact .write rfl rfl)
  | writeSignal w =>
      simp only [hcode, PipeState.statement, Option.some.injEq] at hs
      subst hs
      exact signalOn ha (ha.full_noWrap (by rw [hcode]; rfl)) (by rw [hcode]; exact .write rfl rfl)
  | readLoad r =>
      simp only [hcode, PipeState.statement, Option.some.injEq] at hs
      subst hs
      refine ⟨rfl, fun p hp => ?_, Or.inr ⟨r, _, hcode, rfl, ?_⟩⟩
      · exact Function.update_of_ne hp _ _
      · exact Function.update_self _ _ _
  | readMove r =>
      simp only [hcode, PipeState.statement, Option.some.injEq] at hs
      subst hs
      exact move rfl rfl rfl (by rw [hcode]; exact .unlock r)
  | readUnlock r =>
      simp only [hcode, PipeState.statement, Option.some.injEq] at hs
      subst hs
      exact signalOn ha (ha.lock_noWrap (by rw [hcode]; rfl)) (by rw [hcode]; exact .signal r)
  | readSignal r =>
      simp only [hcode, PipeState.statement, Option.some.injEq] at hs
      subst hs
      exact signalOn ha (ha.empty_noWrap (by rw [hcode]; rfl)) (by rw [hcode]; exact .next r)
  | readNext r =>
      simp only [hcode, PipeState.statement] at hs
      split at hs
      · rename_i hlt
        have hcur : (st.sem.trywait (some st.current) st.pipe.semFull).1.current = st.current := by
          by_cases hpos : 0 < st.sem.count st.pipe.semFull
          · rw [SemState.trywait_of_pos ha.queues hpos]
            rfl
          · rw [SemState.trywait_of_nonpos (Int.not_lt.mp hpos)]
            rfl
        cases hs
        split
        · exact move rfl (PipeState.goto_code hcur _) rfl (by rw [hcode]; exact .back r)
        · exact move rfl (PipeState.goto_code hcur _) rfl (by rw [hcode]; exact .more hlt)
      · cases hs
        exact move rfl rfl rfl (by rw [hcode]; exact .back r)

end ReadsOn

/-- A step that begins no call. -/
theorem pipeMachine_readsOn {fuel : Nat} {l : List Ptr} {n : Ptr → Int} {st st' : PipeState}
    {a : PipeAction} (ha : Accounts l n st) (hmoves : ∃ context, a = .run context ∨ a = .tick context)
    (hs : (pipeMachine fuel).step st a = some st') : ReadsOn st st' := by
  obtain ⟨context, rfl | rfl⟩ := hmoves
  · simp only [pipeMachine] at hs
    split at hs
    · obtain ⟨sem, hsem, rfl⟩ := Option.map_eq_some_iff.mp hs
      exact ReadsOn.still rfl rfl rfl
    · rename_i s hpt
      cases hs
      exact ReadsOn.move rfl rfl rfl (.afterWait (ha.link st.current s (by simp [hpt])))
    · rename_i hout
      exact ReadsOn.statement ha hout hs
  · obtain ⟨sem, hsem, rfl⟩ := Option.map_eq_some_iff.mp hs
    exact ReadsOn.still rfl rfl rfl

/-- A call leaves the other processes where they are. -/
structure Enters (st st' : PipeState) (pt : PipePoint) : Prop where
  code : st'.code = Function.update st.code st.current pt
  taken : st'.taken = st.taken
  writeRefs : st'.pipe.writeRefs = st.pipe.writeRefs

theorem pipeMachine_callWrite {fuel : Nat} {st st' : PipeState} {data : List UInt8}
    (hs : (pipeMachine fuel).step st (.callWrite data) = some st') :
    ∃ pt, Enters st st' pt ∧ pt.reader = none := by
  simp only [pipeMachine] at hs
  split at hs
  · cases hs
    unfold PipeState.pipeWrite
    split
    · exact ⟨_, ⟨rfl, rfl, rfl⟩, rfl⟩
    · exact ⟨_, ⟨rfl, rfl, rfl⟩, rfl⟩
  · cases hs

/-- `pipe_read` waits, since the pipe has a writer. -/
theorem pipeMachine_callRead {fuel : Nat} {st st' : PipeState} {len : Nat} (hlen : len ≠ 0)
    (hrefs : st.pipe.writeRefs ≠ 0)
    (hs : (pipeMachine fuel).step st (.callRead len) = some st') :
    Enters st st' (.readWait ⟨len, []⟩) := by
  simp only [pipeMachine] at hs
  split at hs
  · cases hs
    rw [PipeState.pipeRead, if_neg hlen, if_neg fun h => hrefs h.1]
    exact ⟨rfl, rfl, rfl⟩
  · cases hs

/-- What a call of `pipe_read` has filled of the buffer of its caller. -/
def PipePoint.out (pt : PipePoint) : List UInt8 := (pt.reader.map ReadCall.out).getD []

/-- `reading` says that `framebuffer_print_process` is between its call of `pipe_read` and its
call of `putchar`. -/
structure PrintState where
  pipes : PipeState
  screen : Screen
  reading : Bool
  buf : UInt8

inductive PrintAction where
  | pipe (a : PipeAction)
  | read
  | print
  deriving DecidableEq, Repr

def PipeAction.isCall : PipeAction → Bool
  | .callWrite _ | .callRead _ => true
  | _ => false

/-- The process `printer` runs `framebuffer_print_process`, which calls nothing else. -/
def printMachine (fuel font : Nat) (printer : Ptr) : Machine PrintState PrintAction where
  step st
    | .pipe a =>
        if st.pipes.current = printer ∧ a.isCall then none
        else ((pipeMachine fuel).step st.pipes a).map fun pipes =>
          { st with pipes := pipes, buf := (pipes.code printer).out.headD st.buf }
    | .read =>
        if st.pipes.current = printer ∧ st.reading = false then
          ((pipeMachine fuel).step st.pipes (.callRead 1)).map fun pipes =>
            { st with pipes := pipes, reading := true }
        else none
    | .print =>
        match st.pipes.code printer with
        | .idle _ =>
            if st.pipes.current = printer ∧ st.reading then
              some { st with screen := st.screen.putchar font st.buf.toNat, reading := false }
            else none
        | _ => none

/-- Where the printing process is, and what it has taken of the pipe and not printed. -/
inductive PrintPhase (buf : UInt8) : Bool → PipePoint → List UInt8 → Prop
  | away (result : Option Int) : PrintPhase buf false (.idle result) []
  | wait : PrintPhase buf true (.readWait ⟨1, []⟩) []
  | lock : PrintPhase buf true (.readLock ⟨1, []⟩) []
  | load : PrintPhase buf true (.readLoad ⟨1, []⟩) []
  | move : PrintPhase buf true (.readMove ⟨1, [buf]⟩) [buf]
  | unlock : PrintPhase buf true (.readUnlock ⟨1, [buf]⟩) [buf]
  | signal : PrintPhase buf true (.readSignal ⟨1, [buf]⟩) [buf]
  | next : PrintPhase buf true (.readNext ⟨1, [buf]⟩) [buf]
  | back (result : Option Int) : PrintPhase buf true (.idle result) [buf]

/-- A statement of `pipe_read` that takes no byte. -/
theorem PrintPhase.turn {buf : UInt8} {reading : Bool} {pt pt' : PipePoint}
    {pending : List UInt8} (h : PrintPhase buf reading pt pending) (hturn : ReadTurn pt pt') :
    PrintPhase (pt'.out.headD buf) reading pt' pending := by
  cases hturn with
  | stay =>
      cases h with
      | away result => exact .away result
      | back result => exact .back result
      | wait => exact .wait
      | lock => exact .lock
      | load => exact .load
      | move => exact .move
      | unlock => exact .unlock
      | signal => exact .signal
      | next => exact .next
  | write hwrite _ => cases h <;> cases hwrite
  | lock r =>
      cases h
      exact .lock
  | load r =>
      cases h
      exact .load
  | unlock r =>
      cases h
      exact .unlock
  | signal r =>
      cases h
      exact .signal
  | next r =>
      cases h
      exact .next
  | more hlt =>
      cases h
      exact absurd hlt (Nat.lt_irrefl 1)
  | back r =>
      cases h
      exact .back _

/-- The screen shows the bytes `shown`, which were taken before `pending`. -/
structure Printed (font : Nat) (printer : Ptr) (s₀ : Screen) (st : PrintState)
    (shown pending : List UInt8) : Prop where
  taken : st.pipes.taken = shown ++ pending
  screen : st.screen = (shown.map fun b => (b.toNat : Int)).foldl (Screen.putchar font) s₀
  phase : PrintPhase st.buf st.reading (st.pipes.code printer) pending
  others : ∀ p, p ≠ printer → (st.pipes.code p).reader = none
  writeRefs : st.pipes.pipe.writeRefs ≠ 0

/-- No process but the printing one reads the pipe, and no key is written to it. -/
def PrintAction.Written : PrintAction → Prop
  | .pipe (.callRead _) | .pipe (.keyboard _) => False
  | _ => True

theorem ReadTurn.reader {pt pt' : PipePoint} (h : ReadTurn pt pt') (hnone : pt.reader = none) :
    pt'.reader = none := by
  cases h with
  | stay => exact hnone
  | write _ hwrite => exact hwrite
  | _ => cases hnone

section

variable {fuel font : Nat} {printer : Ptr} {s₀ : Screen} {l : List Ptr} {n : Ptr → Int}
  {st st' : PrintState} {pipes : PipeState} {shown pending : List UInt8}

namespace Printed

/-- Another process, or an interrupt, uses the pipe. -/
theorem elsewhere (h : Printed font printer s₀ st shown pending)
    (htaken : pipes.taken = st.pipes.taken) (hrefs : pipes.pipe.writeRefs = st.pipes.pipe.writeRefs)
    (hcode : pipes.code printer = st.pipes.code printer)
    (hothers : ∀ p, p ≠ printer → (pipes.code p).reader = none) :
    Printed font printer s₀
      { st with pipes := pipes, buf := (pipes.code printer).out.headD st.buf } shown pending where
  taken := htaken.trans h.taken
  screen := h.screen
  phase := by
    rw [hcode]
    exact h.phase.turn (.stay _)
  others := hothers
  writeRefs := by
    rw [hrefs]
    exact h.writeRefs

/-- A statement of the printing process. -/
theorem ownTurn (h : Printed font printer s₀ st shown pending)
    (hcurrent : st.pipes.current = printer) (hreads : ReadsOn st.pipes pipes) :
    ∃ pending', Printed font printer s₀
      { st with pipes := pipes, buf := (pipes.code printer).out.headD st.buf } shown pending' := by
  subst hcurrent
  have hothers : ∀ p, p ≠ st.pipes.current → (pipes.code p).reader = none := by
    intro p hp
    rw [hreads.others p hp]
    exact h.others p hp
  have hrefs : pipes.pipe.writeRefs ≠ 0 := by
    rw [hreads.writeRefs]
    exact h.writeRefs
  rcases hreads.current with ⟨htaken, hturn⟩ | ⟨r, byte, hload, htaken, hmove⟩
  · exact ⟨pending, htaken.trans h.taken, h.screen, h.phase.turn hturn, hothers, hrefs⟩
  · have hphase := h.phase
    rw [hload] at hphase
    obtain ⟨hr, hpending, hreading⟩ : r = ⟨1, []⟩ ∧ pending = [] ∧ st.reading = true := by
      generalize st.reading = reading at hphase
      cases hphase
      exact ⟨rfl, rfl, rfl⟩
    refine ⟨[byte], ?_, h.screen, ?_, hothers, hrefs⟩
    · rw [htaken, h.taken, hpending, List.append_nil]
    · change PrintPhase ((pipes.code st.pipes.current).out.headD st.buf) st.reading
        (pipes.code st.pipes.current) [byte]
      rw [hmove, hr, hreading]
      exact .move

theorem pipeStep (h : Printed font printer s₀ st shown pending) (ha : Accounts l n st.pipes)
    {a : PipeAction} (hwritten : PrintAction.Written (.pipe a))
    (hcall : ¬(st.pipes.current = printer ∧ a.isCall))
    (hs : (pipeMachine fuel).step st.pipes a = some pipes) :
    ∃ pending', Printed font printer s₀
      { st with pipes := pipes, buf := (pipes.code printer).out.headD st.buf } shown pending' := by
  have hreads : ReadsOn st.pipes pipes → ∃ pending', Printed font printer s₀
      { st with pipes := pipes, buf := (pipes.code printer).out.headD st.buf } shown pending' := by
    intro hreads
    by_cases hcurrent : st.pipes.current = printer
    · exact h.ownTurn hcurrent hreads
    · have hold := h.others _ hcurrent
      rcases hreads.current with ⟨htaken, hturn⟩ | ⟨r, byte, hload, -, -⟩
      · refine ⟨pending, h.elsewhere htaken hreads.writeRefs (hreads.others _ (Ne.symm hcurrent))
          fun p hp => ?_⟩
        by_cases hpc : p = st.pipes.current
        · rw [hpc]
          exact hturn.reader hold
        · rw [hreads.others p hpc]
          exact h.others p hp
      · rw [hload] at hold
        cases hold
  cases a with
  | callWrite data =>
      have hcurrent : st.pipes.current ≠ printer := fun heq => hcall ⟨heq, rfl⟩
      obtain ⟨pt, henters, hpt⟩ := pipeMachine_callWrite hs
      refine ⟨pending, h.elsewhere henters.taken henters.writeRefs ?_ fun p hp => ?_⟩
      · rw [henters.code, Function.update_of_ne (Ne.symm hcurrent)]
      · by_cases hpc : p = st.pipes.current
        · rw [henters.code, hpc, Function.update_self]
          exact hpt
        · rw [henters.code, Function.update_of_ne hpc]
          exact h.others p hp
  | callRead len => exact hwritten.elim
  | run context => exact hreads (pipeMachine_readsOn ha ⟨context, Or.inl rfl⟩ hs)
  | tick context => exact hreads (pipeMachine_readsOn ha ⟨context, Or.inr rfl⟩ hs)
  | keyboard byte => exact hwritten.elim

theorem step (h : Printed font printer s₀ st shown pending) (ha : Accounts l n st.pipes)
    {a : PrintAction} (hwritten : a.Written)
    (hs : (printMachine fuel font printer).step st a = some st') :
    ∃ shown' pending', Printed font printer s₀ st' shown' pending' := by
  cases a with
  | pipe a =>
      simp only [printMachine] at hs
      split at hs
      · cases hs
      · rename_i hcall
        obtain ⟨pipes, hpipes, rfl⟩ := Option.map_eq_some_iff.mp hs
        exact ⟨shown, h.pipeStep ha hwritten hcall hpipes⟩
  | read =>
      simp only [printMachine] at hs
      split at hs
      · rename_i hready
        obtain ⟨hcurrent, hreading⟩ := hready
        obtain ⟨pipes, hpipes, rfl⟩ := Option.map_eq_some_iff.mp hs
        have henters := pipeMachine_callRead (by decide) h.writeRefs hpipes
        have hphase := h.phase
        rw [hreading] at hphase
        have hpending : pending = [] := by
          generalize st.pipes.code printer = pt at hphase
          cases hphase
          rfl
        refine ⟨shown, [], ?_, h.screen, ?_, fun p hp => ?_, ?_⟩
        · rw [henters.taken, h.taken, hpending]
        · rw [henters.code, hcurrent, Function.update_self]
          exact .wait
        · rw [henters.code, hcurrent, Function.update_of_ne hp]
          exact h.others p hp
        · rw [henters.writeRefs]
          exact h.writeRefs
      · cases hs
  | print =>
      simp only [printMachine] at hs
      split at hs
      · rename_i result hcode
        split at hs
        · rename_i hready
          cases hs
          have hphase := h.phase
          rw [hcode, hready.2] at hphase
          have hpending : pending = [st.buf] := by
            cases hphase
            rfl
          refine ⟨shown ++ [st.buf], [], ?_, ?_, ?_, h.others, h.writeRefs⟩
          · rw [List.append_nil, ← hpending]
            exact h.taken
          · rw [List.map_append, List.foldl_append, ← h.screen]
            rfl
          · rw [hcode]
            exact .away result
        · cases hs
      · cases hs

end Printed

end

end BayosKernel
