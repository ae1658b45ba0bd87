import BayosKernel.Foundation.StackCode
import BayosKernel.Process

/-!
The handlers of `interrupt_handler.asm`: what they leave on the stack, and what
they come back with.

The SSE registers are not saved by the code. `keyboard_handler` and the functions
behind `syscall_handler` are given by what they leave and return.
-/

namespace BayosKernel

open Foundation

/-- The C functions that the handlers call. -/
inductive HandlerCall where
  | schedule
  | getCurrentProcess
  | keyboardHandler
  | syscallHandler
  deriving DecidableEq, Repr

/-- The general registers in the order of the fields of `cpu_status`. -/
def statusRegs : List Reg :=
  [.r15, .r14, .r13, .r12, .r11, .r10, .r9, .r8, .rdi, .rsi, .rbp, .rdx, .rcx, .rbx, .rax]

/-- The words of the `cpu_status` of a process. -/
def cpuStatus (cpu : Cpu) : List UInt64 := statusRegs.map cpu.reg ++ interruptFrame cpu

/-- The end of the interrupt is signalled, and all registers are pushed. -/
def saveCode : List (Instr HandlerCall) :=
  [.push .rax, .movAl 0x20, .outAl 0x20, .pop .rax,
    .push .rax, .push .rbx, .push .rcx, .push .rdx, .push .rbp, .push .rsi, .push .rdi,
    .push .r8, .push .r9, .push .r10, .push .r11, .push .r12, .push .r13, .push .r14, .push .r15]

def restoreCode : List (Instr HandlerCall) :=
  [.pop .r15, .pop .r14, .pop .r13, .pop .r12, .pop .r11, .pop .r10, .pop .r9, .pop .r8,
    .pop .rdi, .pop .rsi, .pop .rbp, .pop .rdx, .pop .rcx, .pop .rbx, .pop .rax, .iretq]

/-- From the argument of `schedule` to the stack of the process that it selects. The
address of its struct is compared with `cr3`. -/
def switchCode : List (Instr HandlerCall) :=
  [.movFromRsp .rdi, .call .schedule, .mov .r15 .rax, .call .getCurrentProcess,
    .movFromCr3 .rcx, .cmp .rax .rcx, .je 2, .load .rcx .rax, .movToCr3 .rcx, .movToRsp .r15]

def timerIntHandler : List (Instr HandlerCall) := saveCode ++ (switchCode ++ restoreCode)

/-- `_keyboard_handler`. -/
def keyboardHandlerEntry : List (Instr HandlerCall) :=
  saveCode ++ (.inAl 0x60 :: .movzxAl .rdi :: .call .keyboardHandler :: restoreCode)

/-- What `keyboard_handler` does to the scheduler: the `sem_signal` for a character may
wake a process. -/
def wake (k : Scheduler) : Option Ptr → Scheduler
  | none => k
  | some p => k.modify p fun q => { q with waitNext := NULL, status := .ready }

/-- What a C function does to the scheduler, and what it leaves behind. -/
def handlerCall (fuel : Nat) (s : HandlerCall → Scratch) (woken : Option Ptr) :
    HandlerCall → CodeState Scheduler → Option (CodeState Scheduler)
  | .schedule, st =>
      (st.kernel.schedule fuel (st.cpu.reg .rdi).toNat).map fun r =>
        { st with kernel := r.1 }.returnFrom (s .schedule) (UInt64.ofNat r.2)
  | .getCurrentProcess, st =>
      some (st.returnFrom (s .getCurrentProcess) (UInt64.ofNat st.kernel.currentProcess))
  | .keyboardHandler, st =>
      some ({ st with kernel := wake st.kernel woken }.returnFrom (s .keyboardHandler)
        ((s .keyboardHandler).reg .rax))
  | .syscallHandler, st =>
      some (st.returnFrom (s .syscallHandler) ((s .syscallHandler).reg .rax))

/-- The first word of a process struct is its `cr3`. -/
def handlerEnv (fuel : Nat) (s : HandlerCall → Scratch) (scancode : UInt8)
    (woken : Option Ptr) : Environment HandlerCall Scheduler where
  call := handlerCall fuel s woken
  peek k a :=
    if a = UInt64.ofNat k.currentProcess then some (UInt64.ofNat (k.procs k.currentProcess).cr3)
    else none
  port _ := scancode
  userCs := 0x33
  userSs := 0x2b

/-- The kernel code segment, which the gates of the interrupts name. -/
abbrev kernelCs : UInt64 := 0x8

section

variable {σ : Type} {env : Environment HandlerCall σ} {code : List (Instr HandlerCall)}
  {st : CodeState σ} {b : UInt64}

theorem acknowledge_eq {v port : UInt8} :
    runCode env (.push .rax :: .movAl v :: .outAl port :: .pop .rax :: code) 0 st =
      runCode env code 0 (st.withStack st.cpu.rsp
        (st.mem.store 8 (place st.cpu.cr3 (st.cpu.rsp - 8)) (st.cpu.reg .rax).toNat)) := by
  have hword : (st.push (st.cpu.reg .rax)).word (st.cpu.rsp - 8) = st.cpu.reg .rax :=
    CodeState.word_eq (ByteMemory.load_store_word _ (UInt64.toNat_lt _))
  have hpop : ((st.push (st.cpu.reg .rax)).set .rax
      (st.cpu.reg .rax &&& ~~~0xff ||| v.toUInt64)).pop .rax = st.withStack st.cpu.rsp
        (st.mem.store 8 (place st.cpu.cr3 (st.cpu.rsp - 8)) (st.cpu.reg .rax).toNat) := by
    have hpush : ((st.push (st.cpu.reg .rax)).set .rax
        (st.cpu.reg .rax &&& ~~~0xff ||| v.toUInt64)).word (st.cpu.rsp - 8) = st.cpu.reg .rax :=
      hword
    have hrsp : st.cpu.rsp - 8 + 8 = st.cpu.rsp := UInt64.sub_add_cancel _ _
    simp only [CodeState.pop, CodeState.set, CodeState.push, CodeState.withStack, Cpu.set]
      at hpush ⊢
    rw [hpush, hrsp, Function.update_idem, Function.update_eq_self]
  exact congrArg (runCode env code 0) hpop

/-- The general registers are pushed. -/
theorem saveCode_pushes (env : Environment HandlerCall σ) (code : List (Instr HandlerCall))
    (st : CodeState σ) (hhalf : InHalf b 120) (hsp : st.cpu.rsp.toNat = b.toNat + 120) :
    ∃ m, runCode env (saveCode ++ code) 0 st = runCode env code 0 (st.withStack b m) ∧
      Words m (place st.cpu.cr3 b) (statusRegs.map st.cpu.reg) ∧
      ∀ x, (x < place st.cpu.cr3 b ∨ place st.cpu.cr3 b + 120 ≤ x) → m x = st.mem x := by
  have height : (8 : UInt64).toNat = 8 := rfl
  have hbelow : (st.cpu.rsp - 8).toNat = b.toNat + 112 := by
    rw [toNat_sub_eq (by omega)]
    omega
  have hplace : place st.cpu.cr3 (st.cpu.rsp - 8) = place st.cpu.cr3 b + 112 :=
    place_add hhalf hbelow (by omega)
  -- `rax` is also pushed and popped around the access to the port
  obtain ⟨m, hpushes, hregs, hout⟩ := runCode_pushes env code statusRegs.reverse
    (st.withStack st.cpu.rsp
      (st.mem.store 8 (place st.cpu.cr3 (st.cpu.rsp - 8)) (st.cpu.reg .rax).toNat)) hhalf hsp
  refine ⟨m, acknowledge_eq.trans hpushes, hregs, fun x hx => (hout x hx).trans ?_⟩
  exact ByteMemory.store_outside _ (by omega)

/-- The interrupted process is saved as a `cpu_status` below its stack pointer, or on
the stack of ring 0. -/
theorem saveCode_saves (env : Environment HandlerCall σ) (code : List (Instr HandlerCall))
    {ringStack : UInt64} (hhalf : InHalf b 160)
    (hstack : (interruptStack ringStack st.cpu).toNat = b.toNat + 160) :
    ∃ m, runCode env (saveCode ++ code) 0 (st.interrupt ringStack kernelCs) =
        runCode env code 0 ((st.interrupt ringStack kernelCs).withStack b m) ∧
      Words m (place st.cpu.cr3 b) (cpuStatus st.cpu) ∧
      ∀ x, (x < place st.cpu.cr3 b ∨ place st.cpu.cr3 b + 160 ≤ x) → m x = st.mem x := by
  have hbound := hhalf.noWrap
  have hnat : (120 : UInt64).toNat = 120 := rfl
  have htop : (b + 120).toNat = b.toNat + 120 := toNat_add_eq (by omega)
  have hplace : place st.cpu.cr3 (b + 120) = place st.cpu.cr3 b + 120 :=
    place_add hhalf htop (by omega)
  obtain ⟨hrsp, hframe, hout⟩ := st.interruptOn_pushes kernelCs
    (hhalf.part htop (by decide)) (hstack.trans (by omega))
  rw [hplace] at hframe hout
  obtain ⟨m, hpushes, hregs, hout'⟩ := saveCode_pushes env code
    (st.interrupt ringStack kernelCs) (hhalf.part (i := 0) rfl (by decide))
    (by rw [CodeState.interrupt, hrsp, htop])
  rw [CodeState.interrupt_cr3] at hregs hout'
  refine ⟨m, hpushes, Words.append_iff.mpr ⟨hregs, ?_⟩, fun x hx => ?_⟩
  · exact hframe.congr fun x hle _ => hout' x (Or.inr hle)
  · exact (hout' x (by omega)).trans (hout x (by omega))

/-- The registers come back from a `cpu_status`, except for `cr3`. -/
theorem restoreCode_restores {cpu : Cpu} (hhalf : InHalf st.cpu.rsp 160)
    (hwords : Words st.mem (place st.cpu.cr3 st.cpu.rsp) (cpuStatus cpu)) :
    runCode env restoreCode 0 st = some { st with cpu := { cpu with cr3 := st.cpu.cr3 } } := by
  have hbound := hhalf.noWrap
  have hnat : (120 : UInt64).toNat = 120 := rfl
  obtain ⟨hregs, hframe⟩ := Words.append_iff.mp hwords
  have htop : (st.cpu.rsp + 120).toNat = st.cpu.rsp.toNat + 120 := toNat_add_eq (by omega)
  have hplace : place st.cpu.cr3 (st.cpu.rsp + 120) = place st.cpu.cr3 st.cpu.rsp + 120 :=
    place_add hhalf htop (by omega)
  have hpops := runCode_pops env [.iretq] statusRegs st (hhalf.part (i := 0) rfl (by decide)) htop
    hregs
  have hreg : popped statusRegs cpu.reg st.cpu.reg = cpu.reg := by
    funext r
    exact if_pos (by cases r <;> decide)
  rw [hreg] at hpops
  refine hpops.trans (congrArg some ?_)
  exact CodeState.iret_eq
    { st with cpu := { st.cpu with reg := cpu.reg, rsp := st.cpu.rsp + 120 } }
    (hhalf.part htop (by decide)) (by rw [hplace]; exact hframe)

end

section Switching

variable {st : CodeState Scheduler} {code : List (Instr HandlerCall)} {fuel depth : Nat}
  {s : HandlerCall → Scratch} {scancode : UInt8} {ringStack b : UInt64} {k : Scheduler}
  {context : Ptr} {woken : Option Ptr}

theorem switchCode_runs (code : List (Instr HandlerCall)) (st : CodeState Scheduler)
    (scancode : UInt8) (woken : Option Ptr) (hdepth : ∀ f, (s f).depth ≤ depth)
    (hschedule : st.kernel.schedule fuel st.cpu.rsp.toNat = some (k, context))
    (hne : UInt64.ofNat k.currentProcess ≠ st.cpu.cr3) :
    ∃ st', runCode (handlerEnv fuel s scancode woken) (switchCode ++ code) 0 st =
        runCode (handlerEnv fuel s scancode woken) code 0 st' ∧
      st'.cpu.rsp = UInt64.ofNat context ∧
      st'.cpu.cr3 = UInt64.ofNat (k.procs k.currentProcess).cr3 ∧ st'.kernel = k ∧
      ∀ x, (x < place st.cpu.cr3 st.cpu.rsp - depth ∨ place st.cpu.cr3 st.cpu.rsp ≤ x) →
        st'.mem x = st.mem x := by
  have hcall : (handlerEnv fuel s scancode woken).call .schedule (st.set .rdi st.cpu.rsp) = some
      ({ st.set .rdi st.cpu.rsp with kernel := k }.returnFrom (s .schedule)
        (UInt64.ofNat context)) := by
    simp only [handlerEnv, handlerCall, CodeState.set, Cpu.set, Function.update_self, hschedule,
      Option.map_some]
  have hequal : (UInt64.ofNat k.currentProcess == st.cpu.cr3) = false :=
    beq_eq_false_iff_ne.mpr hne
  set st₁ := { st.set .rdi st.cpu.rsp with kernel := k }.returnFrom (s .schedule)
    (UInt64.ofNat context) with hst₁
  set st₂ := ((st₁.set .r15 (UInt64.ofNat context)).returnFrom (s .getCurrentProcess)
    (UInt64.ofNat k.currentProcess)) with hst₂
  have hcompare : runCode (handlerEnv fuel s scancode woken) (switchCode ++ code) 0 st =
      runCode (handlerEnv fuel s scancode woken) (switchCode.drop 6 ++ code) 0
        { st₂.set .rcx st.cpu.cr3 with
          equal := UInt64.ofNat k.currentProcess == st.cpu.cr3 } := by
    change ((handlerEnv fuel s scancode woken).call .schedule (st.set .rdi st.cpu.rsp)).bind _ = _
    rw [hcall]
    rfl
  rw [hequal] at hcompare
  have hpeek : (handlerEnv fuel s scancode woken).peek k (UInt64.ofNat k.currentProcess) =
      some (UInt64.ofNat (k.procs k.currentProcess).cr3) := if_pos rfl
  have hswitch : ∃ st', runCode (handlerEnv fuel s scancode woken) (switchCode.drop 6 ++ code) 0
        { st₂.set .rcx st.cpu.cr3 with equal := false } =
      runCode (handlerEnv fuel s scancode woken) code 0 st' ∧
        st'.cpu.rsp = UInt64.ofNat context ∧
        st'.cpu.cr3 = UInt64.ofNat (k.procs k.currentProcess).cr3 ∧ st'.kernel = k ∧
        st'.mem = st₂.mem := by
    refine ⟨{ st₂ with
      equal := false
      cpu := { (st₂.cpu.set .rcx st.cpu.cr3).set .rcx
          (UInt64.ofNat (k.procs k.currentProcess).cr3) with
        cr3 := UInt64.ofNat (k.procs k.currentProcess).cr3
        rsp := UInt64.ofNat context } }, ?_, rfl, rfl, rfl, rfl⟩
    change runCode _ (.movToCr3 .rcx :: .movToRsp .r15 :: code) 0 (CodeState.set _ .rcx
      (Option.getD ((handlerEnv fuel s scancode woken).peek k (UInt64.ofNat k.currentProcess)) _)) = _
    rw [hpeek]
    rfl
  obtain ⟨st', hrun, hrsp, hcr3, hkernel, hmem⟩ := hswitch
  refine ⟨st', hcompare.trans hrun, hrsp, hcr3, hkernel, fun x hx => ?_⟩
  have hfirst := hdepth .schedule
  have hsecond := hdepth .getCurrentProcess
  rw [hmem]
  have hbelow : ∀ d ≤ depth, ¬(place st.cpu.cr3 st.cpu.rsp - d ≤ x ∧
      x < place st.cpu.cr3 st.cpu.rsp) := by
    intro d hd
    omega
  exact (if_neg (hbelow _ hsecond)).trans (if_neg (hbelow _ hfirst))

/-- The handler of the timer saves the interrupted process as a `cpu_status`, and comes
back with the registers that the `cpu_status` of the selected process then holds. -/
theorem timerIntHandler_switches {st : CodeState Scheduler} (scancode : UInt8)
    (woken : Option Ptr) (hhalf : InHalf b 160)
    (hstack : (interruptStack ringStack st.cpu).toNat = b.toNat + 160)
    (hdepth : ∀ f, (s f).depth ≤ depth)
    (hschedule : st.kernel.schedule fuel b.toNat = some (k, context))
    (hne : UInt64.ofNat k.currentProcess ≠ st.cpu.cr3) :
    ∃ m, Words m (place st.cpu.cr3 b) (cpuStatus st.cpu) ∧
      (∀ x, (x < place st.cpu.cr3 b - depth ∨ place st.cpu.cr3 b + 160 ≤ x) → m x = st.mem x) ∧
      ∀ cpu, InHalf (UInt64.ofNat context) 160 →
        Words m (place (UInt64.ofNat (k.procs k.currentProcess).cr3) (UInt64.ofNat context))
          (cpuStatus cpu) →
        ∃ e, runCode (handlerEnv fuel s scancode woken) timerIntHandler 0
            (st.interrupt ringStack kernelCs) =
          some ⟨{ cpu with cr3 := UInt64.ofNat (k.procs k.currentProcess).cr3 }, m, e, k⟩ := by
  obtain ⟨m, hsave, hwords, hout⟩ := saveCode_saves (handlerEnv fuel s scancode woken)
    (switchCode ++ restoreCode) hhalf hstack
  obtain ⟨st', hrun, hrsp, hcr3, hkernel, hmem⟩ := switchCode_runs restoreCode
    ((st.interrupt ringStack kernelCs).withStack b m) scancode woken hdepth hschedule hne
  have hbelow : ∀ x, (x < place st.cpu.cr3 b - depth ∨ place st.cpu.cr3 b ≤ x) →
      st'.mem x = m x := hmem
  refine ⟨st'.mem, hwords.congr fun x hle _ => hbelow x (Or.inr hle),
    fun x hx => (hbelow x (by omega)).trans (hout x (by omega)), fun cpu hctx hstatus => ?_⟩
  rw [← hcr3, ← hrsp] at hstatus
  rw [← hrsp] at hctx
  refine ⟨st'.equal, (hsave.trans hrun).trans ((restoreCode_restores hctx hstatus).trans ?_)⟩
  rw [hcr3, ← hkernel]

/-- From the port of the keyboard to the return of `keyboard_handler`. -/
theorem keyboardCode_runs (code : List (Instr HandlerCall)) (st : CodeState Scheduler)
    (fuel : Nat) (scancode : UInt8) (woken : Option Ptr) (hdepth : ∀ f, (s f).depth ≤ depth) :
    ∃ st', runCode (handlerEnv fuel s scancode woken)
        (.inAl 0x60 :: .movzxAl .rdi :: .call .keyboardHandler :: code) 0 st =
          runCode (handlerEnv fuel s scancode woken) code 0 st' ∧
      st'.cpu.rsp = st.cpu.rsp ∧ st'.cpu.cr3 = st.cpu.cr3 ∧ st'.equal = st.equal ∧
      st'.kernel = wake st.kernel woken ∧
      ∀ x, (x < place st.cpu.cr3 st.cpu.rsp - depth ∨ place st.cpu.cr3 st.cpu.rsp ≤ x) →
        st'.mem x = st.mem x := by
  rw [runCode_inAl]
  generalize st.cpu.reg .rax &&& ~~~0xff |||
    ((handlerEnv fuel s scancode woken).port 0x60).toUInt64 = al
  rw [runCode_movzxAl]
  generalize (st.set .rax al).cpu.reg .rax &&& 0xff = rdi
  refine ⟨{ (st.set .rax al).set .rdi rdi with kernel := wake st.kernel woken }.returnFrom
    (s .keyboardHandler) ((s .keyboardHandler).reg .rax), ?_, rfl, rfl, rfl, rfl, fun x hx => ?_⟩
  · rw [runCode_call]
    rfl
  · have hmost := hdepth .keyboardHandler
    have hbelow : ¬(place st.cpu.cr3 st.cpu.rsp - (s .keyboardHandler).depth ≤ x ∧
        x < place st.cpu.cr3 st.cpu.rsp) := by omega
    exact if_neg hbelow

/-- The handler of the keyboard comes back with the registers of the interrupted process. -/
theorem keyboardHandlerEntry_returns {st : CodeState Scheduler} (fuel : Nat) (scancode : UInt8)
    (woken : Option Ptr) (hhalf : InHalf b 160)
    (hstack : (interruptStack ringStack st.cpu).toNat = b.toNat + 160)
    (hdepth : ∀ f, (s f).depth ≤ depth) :
    ∃ m, (∀ x, (x < place st.cpu.cr3 b - depth ∨ place st.cpu.cr3 b + 160 ≤ x) →
        m x = st.mem x) ∧
      runCode (handlerEnv fuel s scancode woken) keyboardHandlerEntry 0
          (st.interrupt ringStack kernelCs) =
        some ⟨st.cpu, m, st.equal, wake st.kernel woken⟩ := by
  obtain ⟨m, hsave, hwords, hout⟩ := saveCode_saves
    (handlerEnv fuel s scancode woken)
    (.inAl 0x60 :: .movzxAl .rdi :: .call .keyboardHandler :: restoreCode) hhalf hstack
  obtain ⟨st', hrun, hrsp, hcr3, hequal, hkernel, hmem⟩ := keyboardCode_runs restoreCode
    ((st.interrupt ringStack kernelCs).withStack b m) fuel scancode woken hdepth
  have hstatus : Words st'.mem (place st'.cpu.cr3 st'.cpu.rsp) (cpuStatus st.cpu) := by
    rw [hcr3, hrsp]
    exact hwords.congr fun x hle _ => hmem x (Or.inr hle)
  refine ⟨st'.mem, fun x hx => (hmem x ?_).trans (hout x (by omega)), ?_⟩
  · have hbelow : x < place st.cpu.cr3 b - depth ∨ place st.cpu.cr3 b ≤ x := by omega
    exact hbelow
  · refine (hsave.trans hrun).trans ((restoreCode_restores (by rw [hrsp]; exact hhalf)
      hstatus).trans ?_)
    rw [hcr3, hequal, hkernel]
    rfl

end Switching

end BayosKernel
