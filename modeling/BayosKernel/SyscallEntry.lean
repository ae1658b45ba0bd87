import BayosKernel.InterruptHandlers

/-!
`_syscall_handler`, from the instruction `syscall` to `sysret`.

The handler stays on the stack of the caller. `syscall_handler` is any function that
keeps to the calling convention; its last argument is passed on the stack, where it may
be changed.
-/

namespace BayosKernel

open Foundation

/-- The selectors that `syscall_init` writes for `syscall` and `sysret`. -/
def syscallStar : UInt64 := (0x8 : UInt64) <<< 32 ||| (0x20 : UInt64) <<< 48

/-- The flags that `syscall_init` lets `syscall` clear. -/
def syscallMask : UInt64 :=
  (1 : UInt64) <<< 9 ||| (1 : UInt64) <<< 10 ||| (1 : UInt64) <<< 8 ||| (1 : UInt64) <<< 18

section

variable {σ : Type}

/-- The instruction `syscall`. -/
def syscallInstruction (st : CodeState σ) : CodeState σ :=
  { st with cpu := { st.cpu with
      reg := Function.update (Function.update st.cpu.reg .rcx st.cpu.rip) .r11 st.cpu.flags
      cs := syscallStar >>> 32 &&& 0xfffc
      ss := (syscallStar >>> 32 &&& 0xffff) + 8
      flags := st.cpu.flags &&& ~~~syscallMask } }

/-- `sysret` goes back to the selectors of ring 3. -/
def syscallEnv (call : HandlerCall → CodeState σ → Option (CodeState σ)) :
    Environment HandlerCall σ where
  call := call
  peek _ _ := none
  port _ := 0
  userCs := (syscallStar >>> 48) + 16 ||| 3
  userSs := (syscallStar >>> 48) + 8 ||| 3

/-- The registers that the handler keeps on the stack, the last one on top. -/
def syscallSaved : List Reg := [.rbp, .r15, .r14, .r13, .r12, .r11, .rcx, .r9]

/-- The index and the arguments are moved to where C has them. -/
def syscallMoves : List (Instr HandlerCall) :=
  [.mov .r9 .r8, .mov .r8 .r10, .mov .rcx .rdx, .mov .rdx .rsi, .mov .rsi .rdi, .mov .rdi .rax]

/-- `_syscall_handler`. -/
def syscallHandlerEntry : List (Instr HandlerCall) :=
  .sti :: (syscallSaved.map .push ++ (syscallMoves ++ (.call .syscallHandler ::
    (syscallSaved.reverse.map .pop ++ [.sysret]))))

/-- What C finds in the registers. -/
def syscallArguments (reg : Reg → UInt64) : Reg → UInt64
  | .rdi => reg .rax
  | .rsi => reg .rdi
  | .rdx => reg .rsi
  | .rcx => reg .rdx
  | .r8 => reg .r10
  | .r9 => reg .r8
  | r => reg r

/-- What a function does that keeps to the calling convention, with one word of arguments
on the stack and `n` bytes of the caller behind it. -/
structure Returned (n : Nat) (st st' : CodeState σ) : Prop where
  rsp : st'.cpu.rsp = st.cpu.rsp
  cr3 : st'.cpu.cr3 = st.cpu.cr3
  kept : ∀ r ∉ callerSaved, st'.cpu.reg r = st.cpu.reg r
  stack : ∀ x, place st.cpu.cr3 st.cpu.rsp + 8 ≤ x → x < place st.cpu.cr3 st.cpu.rsp + 8 + n →
    st'.mem x = st.mem x

variable {env : Environment HandlerCall σ} {code : List (Instr HandlerCall)} {st : CodeState σ}
  {b : UInt64}

theorem syscallMoves_runs (env : Environment HandlerCall σ) (code : List (Instr HandlerCall))
    (st : CodeState σ) :
    runCode env (syscallMoves ++ code) 0 st =
      runCode env code 0 { st with cpu := { st.cpu with reg := syscallArguments st.cpu.reg } } := by
  have hreg : ∀ reg : Reg → UInt64, Function.update (Function.update (Function.update
      (Function.update (Function.update (Function.update reg .r9 (reg .r8)) .r8 (reg .r10)) .rcx
        (reg .rdx)) .rdx (reg .rsi)) .rsi (reg .rdi)) .rdi (reg .rax) = syscallArguments reg := by
    intro reg
    funext r
    cases r <;> rfl
  simp only [← hreg]
  rfl

/-- The state in which `syscall_handler` is called. -/
def syscallCalled (st : CodeState σ) (b : UInt64) (m : ByteMemory) : CodeState σ :=
  ⟨⟨syscallArguments (syscallInstruction st).cpu.reg, b, st.cpu.rip, 0x8, 0x10,
    st.cpu.flags &&& ~~~syscallMask ||| interruptFlag, st.cpu.cr3⟩, m, st.equal, st.kernel⟩

/-- The handler up to the call: what the caller had in its registers lies below its
stack pointer, wherever that points. -/
theorem syscallHandlerEntry_calls (env : Environment HandlerCall σ) (hhalf : InHalf b 64)
    (hsp : st.cpu.rsp.toNat = b.toNat + 64) :
    ∃ m, runCode env syscallHandlerEntry 0 (syscallInstruction st) =
        (env.call .syscallHandler (syscallCalled st b m)).bind
          (runCode env (syscallSaved.reverse.map .pop ++ [.sysret]) 0) ∧
      Words m (place st.cpu.cr3 b)
        (syscallSaved.map (syscallInstruction st).cpu.reg).reverse ∧
      ∀ x, (x < place st.cpu.cr3 b ∨ place st.cpu.cr3 b + 64 ≤ x) → m x = st.mem x := by
  obtain ⟨m, hrun, hwords, hout⟩ := runCode_pushes env (syscallMoves ++
    (.call .syscallHandler :: (syscallSaved.reverse.map .pop ++ [.sysret]))) syscallSaved
    { syscallInstruction st with cpu := { (syscallInstruction st).cpu with
      flags := (syscallInstruction st).cpu.flags ||| interruptFlag } } hhalf hsp
  refine ⟨m, ?_, hwords, hout⟩
  have hcs : syscallStar >>> 32 &&& 0xfffc = 0x8 := by decide
  have hss : (syscallStar >>> 32 &&& 0xffff) + 8 = 0x10 := by decide
  rw [syscallHandlerEntry, runCode_sti, hrun, syscallMoves_runs, runCode_call]
  simp only [syscallInstruction, syscallCalled, CodeState.withStack, hcs, hss]

/-- The registers that the handler pops. -/
def syscallPopped (reg : Reg → UInt64) (top : UInt64) (r : Reg) : UInt64 :=
  if r = .r9 then top else reg r

/-- The handler from the return of `syscall_handler` on. -/
theorem syscallHandlerEntry_exits (env : Environment HandlerCall σ) (st : CodeState σ)
    {reg : Reg → UInt64} {sp : UInt64} (hhalf : InHalf st.cpu.rsp 64)
    (hsp : sp.toNat = st.cpu.rsp.toNat + 64)
    (hwords : Words st.mem (place st.cpu.cr3 st.cpu.rsp + 8) (syscallSaved.dropLast.map reg).reverse) :
    runCode env (syscallSaved.reverse.map .pop ++ [.sysret]) 0 st =
      some (CodeState.sysret env { st with cpu := { st.cpu with
        reg := popped syscallSaved.reverse (syscallPopped reg (st.word st.cpu.rsp)) st.cpu.reg
        rsp := sp } }) := by
  refine (runCode_pops env [.sysret] syscallSaved.reverse st hhalf hsp ?_).trans runCode_sysret
  refine ⟨?_, hwords⟩
  have hlt := st.mem.load_lt 8 (place st.cpu.cr3 st.cpu.rsp)
  exact (UInt64.toNat_ofNat_of_lt' hlt).symm

/-- A system call: `syscall_handler` gets the index and six arguments, and the caller goes
on behind its `syscall` in ring 3, with its stack and the registers that are not for
arguments and results. -/
theorem syscallHandlerEntry_returns (call : HandlerCall → CodeState σ → Option (CodeState σ))
    (st : CodeState σ) (b : UInt64) (half : InHalf b 64)
    (stack : st.cpu.rsp.toNat = b.toNat + 64) :
    ∃ st₁ : CodeState σ,
      (st₁.cpu.reg .rdi = st.cpu.reg .rax ∧ st₁.cpu.reg .rsi = st.cpu.reg .rdi ∧
        st₁.cpu.reg .rdx = st.cpu.reg .rsi ∧ st₁.cpu.reg .rcx = st.cpu.reg .rdx ∧
        st₁.cpu.reg .r8 = st.cpu.reg .r10 ∧ st₁.cpu.reg .r9 = st.cpu.reg .r8 ∧
        st₁.word st₁.cpu.rsp = st.cpu.reg .r9) ∧
      (st₁.cpu.ring = 0 ∧ st₁.cpu.rsp = b ∧ st₁.kernel = st.kernel) ∧
      (Words st₁.mem (place st.cpu.cr3 b) [st.cpu.reg .r9, st.cpu.rip, st.cpu.flags,
          st.cpu.reg .r12, st.cpu.reg .r13, st.cpu.reg .r14, st.cpu.reg .r15, st.cpu.reg .rbp] ∧
        ∀ x, (x < place st.cpu.cr3 b ∨ place st.cpu.cr3 b + 64 ≤ x) → st₁.mem x = st.mem x) ∧
      ∀ st₂, call .syscallHandler st₁ = some st₂ → Returned 56 st₁ st₂ →
        ∃ reg, runCode (syscallEnv call) syscallHandlerEntry 0 (syscallInstruction st) =
            some ⟨⟨reg, st.cpu.rsp, st.cpu.rip, 0x33, 0x2b, st.cpu.flags &&& 0x3c7fd7 ||| 0x2,
              st.cpu.cr3⟩, st₂.mem, st₂.equal, st₂.kernel⟩ ∧
          reg .rax = st₂.cpu.reg .rax ∧
          ∀ r ∈ [Reg.rbx, .rbp, .r12, .r13, .r14, .r15], reg r = st.cpu.reg r := by
  obtain ⟨m, hcall, hwords, hout⟩ := syscallHandlerEntry_calls (syscallEnv call) half stack
  refine ⟨syscallCalled st b m, ⟨rfl, rfl, rfl, rfl, rfl, rfl, ?_⟩, ⟨?_, rfl, rfl⟩, ⟨hwords, hout⟩,
    fun st₂ hst₂ hreturned => ?_⟩
  · exact CodeState.word_eq hwords.1
  · change (0x8 : UInt64) &&& 3 = 0
    decide
  · have hrsp : st₂.cpu.rsp = b := hreturned.rsp
    have hcr3 : st₂.cpu.cr3 = st.cpu.cr3 := hreturned.cr3
    have hsaved : Words st₂.mem (place st₂.cpu.cr3 st₂.cpu.rsp + 8)
        (syscallSaved.dropLast.map (syscallInstruction st).cpu.reg).reverse := by
      rw [hrsp, hcr3]
      exact hwords.2.congr fun x hle hlt => hreturned.stack x hle hlt
    have hexit := syscallHandlerEntry_exits (syscallEnv call) st₂ (by rw [hrsp]; exact half)
      (by rw [hrsp]; exact stack) hsaved
    set reg := popped syscallSaved.reverse (syscallPopped (syscallInstruction st).cpu.reg
      (st₂.word st₂.cpu.rsp)) st₂.cpu.reg with hreg
    have hback : ∀ r ∈ syscallSaved, r ≠ .r9 → reg r = (syscallInstruction st).cpu.reg r := by
      intro r hr hne
      rw [hreg, popped, if_pos (List.mem_reverse.mpr hr), syscallPopped, if_neg hne]
    have hrip : reg .rcx = st.cpu.rip := hback .rcx (by decide) (by decide)
    have hflags : reg .r11 = st.cpu.flags := hback .r11 (by decide) (by decide)
    have hcs : (syscallEnv call).userCs = 0x33 := by
      change (syscallStar >>> 48) + 16 ||| 3 = 0x33
      decide
    have hss : (syscallEnv call).userSs = 0x2b := by
      change (syscallStar >>> 48) + 8 ||| 3 = 0x2b
      decide
    refine ⟨reg, ?_, ?_, fun r hr => ?_⟩
    · rw [hcall]
      change (call .syscallHandler _).bind _ = _
      rw [hst₂, Option.bind_some, hexit, CodeState.sysret]
      simp only [hrip, hflags, hcs, hss, hcr3]
    · rw [hreg, popped, if_neg (by decide)]
    · by_cases hrbx : r = .rbx
      · subst hrbx
        rw [hreg, popped, if_neg (by decide)]
        exact hreturned.kept .rbx (by decide)
      · have hin : r ∈ syscallSaved ∧ r ≠ .r9 ∧ r ≠ .rcx ∧ r ≠ .r11 := by
          revert hrbx
          revert hr
          revert r
          decide
        rw [hback r hin.1 hin.2.1, syscallInstruction]
        simp only [Function.update_of_ne hin.2.2.1, Function.update_of_ne hin.2.2.2]

end

/-- A program in ring 3 with its stack below 4 MiB. -/
def userProgram : CodeState Unit where
  cpu :=
    { reg := fun _ => 6, rsp := 0x3ffff0, rip := 0x401000, cs := 0x33, ss := 0x2b, flags := 0x202
      cr3 := 0x5000 }
  mem := fun _ => 0
  equal := false
  kernel := ()

theorem syscallHandlerEntry_returns_userProgram : ∃ reg m e,
    runCode (syscallEnv fun _ st => some (st.set .rax 1)) syscallHandlerEntry 0
        (syscallInstruction userProgram) =
      some ⟨⟨reg, 0x3ffff0, 0x401000, 0x33, 0x2b, 0x202, 0x5000⟩, m, e, ()⟩ ∧
      reg .rax = 1 ∧ reg .rbp = 6 := by
  obtain ⟨st₁, -, -, -, hreturns⟩ := syscallHandlerEntry_returns
    (fun _ st => some (st.set .rax 1)) userProgram 0x3fffb0 ⟨by decide, by decide⟩ (by decide)
  have hreturned : Returned 56 st₁ (st₁.set .rax 1) := by
    refine ⟨rfl, rfl, fun r hr => ?_, fun _ _ _ => rfl⟩
    have hne : r ≠ .rax := fun he => hr (by rw [he]; decide)
    exact Function.update_of_ne hne _ _
  obtain ⟨reg, hrun, hrax, hkept⟩ := hreturns _ rfl hreturned
  refine ⟨reg, _, _, hrun, hrax.trans (st₁.set_reg_self .rax 1), ?_⟩
  exact hkept .rbp (by decide)

end BayosKernel
