import BayosKernel.Foundation.StackWords
import Mathlib.Logic.Function.Basic

/-!
Straight-line x86-64 code around a call: registers are pushed, moved and popped.

The functions that the code calls, the ports and the words of objects that lie
outside of the byte memory are given by an `Environment`; `σ` is what the functions
work on. Of the flags that `cmp` sets only the zero flag is kept, apart from `flags`,
and `rip` is set by the instructions that leave the code only.
-/

namespace Foundation

universe u v

/-- The general registers without `rsp`. -/
inductive Reg where
  | rax | rbx | rcx | rdx | rbp | rsi | rdi | r8 | r9 | r10 | r11 | r12 | r13 | r14 | r15
  deriving DecidableEq, Repr

@[ext] structure Cpu where
  reg : Reg → UInt64
  rsp : UInt64
  rip : UInt64
  cs : UInt64
  ss : UInt64
  flags : UInt64
  cr3 : UInt64

def Cpu.set (cpu : Cpu) (r : Reg) (v : UInt64) : Cpu :=
  { cpu with reg := Function.update cpu.reg r v }

/-- The privilege level of the code segment. -/
def Cpu.ring (cpu : Cpu) : UInt64 := cpu.cs &&& 3

structure CodeState (σ : Type u) where
  cpu : Cpu
  mem : ByteMemory
  equal : Bool
  kernel : σ

inductive Instr (κ : Type v) where
  | push (r : Reg)
  | pop (r : Reg)
  | mov (dst src : Reg)
  | movImm (dst : Reg) (v : UInt64)
  | movAl (v : UInt8)
  | movToRsp (src : Reg)
  | movFromRsp (dst : Reg)
  | movFromCr3 (dst : Reg)
  | movToCr3 (src : Reg)
  | load (dst base : Reg)
  | cmp (a b : Reg)
  | je (skip : Nat)
  | outAl (port : UInt8)
  | inAl (port : UInt8)
  | movzxAl (dst : Reg)
  | sti
  | call (f : κ)
  | iretq
  | sysret
  deriving DecidableEq, Repr

structure Environment (κ : Type v) (σ : Type u) where
  call : κ → CodeState σ → Option (CodeState σ)
  peek : σ → UInt64 → Option UInt64
  port : UInt8 → UInt8
  userCs : UInt64
  userSs : UInt64

/-- Bit 9 of the flags: interrupts are let in. -/
abbrev interruptFlag : UInt64 := 0x200

/-- The registers that a function need not keep. -/
def callerSaved : List Reg := [.rax, .rcx, .rdx, .rsi, .rdi, .r8, .r9, .r10, .r11]

/-- What a function leaves in these registers, in the flags and in the `depth` bytes
below the stack pointer. -/
structure Scratch where
  reg : Reg → UInt64
  flags : UInt64
  bytes : ByteMemory
  depth : Nat

namespace CodeState

variable {σ : Type u} {κ : Type v}

/-- Another stack pointer and memory. -/
def withStack (st : CodeState σ) (sp : UInt64) (m : ByteMemory) : CodeState σ :=
  { st with cpu := { st.cpu with rsp := sp }, mem := m }

def push (st : CodeState σ) (v : UInt64) : CodeState σ :=
  st.withStack (st.cpu.rsp - 8)
    (st.mem.store 8 (place st.cpu.cr3 (st.cpu.rsp - 8)) v.toNat)

/-- The word at an address. -/
def word (st : CodeState σ) (a : UInt64) : UInt64 :=
  UInt64.ofNat (st.mem.load 8 (place st.cpu.cr3 a))

def pop (st : CodeState σ) (r : Reg) : CodeState σ :=
  { st with cpu := { st.cpu.set r (st.word st.cpu.rsp) with rsp := st.cpu.rsp + 8 } }

def set (st : CodeState σ) (r : Reg) (v : UInt64) : CodeState σ :=
  { st with cpu := st.cpu.set r v }

/-- The frame of an interrupt: `rip`, `cs`, `flags`, `rsp` and `ss`. -/
def iret (st : CodeState σ) : CodeState σ :=
  { st with cpu := { st.cpu with
      rip := st.word st.cpu.rsp
      cs := st.word (st.cpu.rsp + 8)
      flags := st.word (st.cpu.rsp + 16)
      rsp := st.word (st.cpu.rsp + 24)
      ss := st.word (st.cpu.rsp + 32) } }

/-- A function comes back with this result. -/
def returnFrom (st : CodeState σ) (s : Scratch) (result : UInt64) : CodeState σ :=
  let sp := place st.cpu.cr3 st.cpu.rsp
  { st with
    cpu := { st.cpu with
      reg := fun r =>
        if r = .rax then result else if r ∈ callerSaved then s.reg r else st.cpu.reg r
      flags := s.flags }
    mem := fun x => if sp - s.depth ≤ x ∧ x < sp then s.bytes x else st.mem x }

def sysret (env : Environment κ σ) (st : CodeState σ) : CodeState σ :=
  { st with cpu := { st.cpu with
      rip := st.cpu.reg .rcx
      flags := st.cpu.reg .r11 &&& 0x3c7fd7 ||| 0x2
      cs := env.userCs
      ss := env.userSs } }

end CodeState

/-- The words of an interrupt frame. -/
def interruptFrame (cpu : Cpu) : List UInt64 := [cpu.rip, cpu.cs, cpu.flags, cpu.rsp, cpu.ss]

/-- Where the frame of an interrupt ends: on the stack of ring 0 given here when the
interrupted code runs in another ring, and on the current one otherwise. -/
def interruptStack (ringStack : UInt64) (cpu : Cpu) : UInt64 :=
  (if cpu.ring = 0 then cpu.rsp else ringStack) &&& ~~~15

/-- What the processor does when it takes an interrupt through a gate with the
selector `gateCs`, with the frame below `top`. -/
def CodeState.interruptOn {σ : Type u} (top gateCs : UInt64) (st : CodeState σ) : CodeState σ :=
  let s := pushWords st.cpu.cr3 (interruptFrame st.cpu).reverse (top, st.mem)
  { st with
    cpu := { st.cpu with
      rsp := s.1
      cs := gateCs
      ss := if st.cpu.ring = 0 then st.cpu.ss else 0
      flags := st.cpu.flags &&& ~~~interruptFlag }
    mem := s.2 }

def CodeState.interrupt {σ : Type u} (ringStack gateCs : UInt64) (st : CodeState σ) :
    CodeState σ :=
  st.interruptOn (interruptStack ringStack st.cpu) gateCs

section Execution

variable {σ : Type u} {κ : Type v} (env : Environment κ σ)

/-- The instructions that go on with the next one. -/
def Instr.exec (st : CodeState σ) : Instr κ → Option (CodeState σ)
  | .push r => some (st.push (st.cpu.reg r))
  | .pop r => some (st.pop r)
  | .mov dst src => some (st.set dst (st.cpu.reg src))
  | .movImm dst v => some (st.set dst v)
  | .movAl v => some (st.set .rax (st.cpu.reg .rax &&& ~~~0xff ||| v.toUInt64))
  | .movToRsp src => some { st with cpu := { st.cpu with rsp := st.cpu.reg src } }
  | .movFromRsp dst => some (st.set dst st.cpu.rsp)
  | .movFromCr3 dst => some (st.set dst st.cpu.cr3)
  | .movToCr3 src => some { st with cpu := { st.cpu with cr3 := st.cpu.reg src } }
  | .load dst base =>
      let a := st.cpu.reg base
      some (st.set dst ((env.peek st.kernel a).getD (st.word a)))
  | .cmp a b => some { st with equal := st.cpu.reg a == st.cpu.reg b }
  | .inAl port =>
      some (st.set .rax (st.cpu.reg .rax &&& ~~~0xff ||| (env.port port).toUInt64))
  | .movzxAl dst => some (st.set dst (st.cpu.reg .rax &&& 0xff))
  | .sti => some { st with cpu := { st.cpu with flags := st.cpu.flags ||| interruptFlag } }
  | .call f => env.call f st
  | .outAl _ | .je _ | .iretq | .sysret => some st

/-- The code from where `skip` instructions are passed over. -/
def runCode : List (Instr κ) → Nat → CodeState σ → Option (CodeState σ)
  | [], _, st => some st
  | _ :: code, skip + 1, st => runCode code skip st
  | .je skip :: code, 0, st => runCode code (if st.equal then skip else 0) st
  | .iretq :: _, 0, st => some st.iret
  | .sysret :: _, 0, st => some (st.sysret env)
  | i :: code, 0, st => (i.exec env st).bind (runCode code 0)

variable {env} {code : List (Instr κ)} {st : CodeState σ}

@[simp] theorem CodeState.set_reg_self (st : CodeState σ) (r : Reg) (v : UInt64) :
    (st.set r v).cpu.reg r = v := by
  simp only [CodeState.set, Cpu.set, Function.update_self]

section Instructions

variable {r a b : Reg} {v : UInt8} {w : UInt64} {port : UInt8} {f : κ}

@[simp] theorem runCode_mov :
    runCode env (.mov a b :: code) 0 st = runCode env code 0 (st.set a (st.cpu.reg b)) := rfl

@[simp] theorem runCode_movAl :
    runCode env (.movAl v :: code) 0 st =
      runCode env code 0 (st.set .rax (st.cpu.reg .rax &&& ~~~0xff ||| v.toUInt64)) := rfl

@[simp] theorem runCode_inAl :
    runCode env (.inAl port :: code) 0 st =
      runCode env code 0
        (st.set .rax (st.cpu.reg .rax &&& ~~~0xff ||| (env.port port).toUInt64)) := rfl

@[simp] theorem runCode_movzxAl :
    runCode env (.movzxAl a :: code) 0 st =
      runCode env code 0 (st.set a (st.cpu.reg .rax &&& 0xff)) := rfl

@[simp] theorem runCode_sti :
    runCode env (.sti :: code) 0 st =
      runCode env code 0
        { st with cpu := { st.cpu with flags := st.cpu.flags ||| interruptFlag } } := rfl

@[simp] theorem runCode_call :
    runCode env (.call f :: code) 0 st = (env.call f st).bind (runCode env code 0) := rfl

@[simp] theorem runCode_sysret :
    runCode env (.sysret :: code) 0 st = some (st.sysret env) := rfl

end Instructions

theorem runCode_pushWords (rs : List Reg) (st : CodeState σ) :
    runCode env (rs.map .push ++ code) 0 st =
      runCode env code 0 (st.withStack
        (pushWords st.cpu.cr3 (rs.map st.cpu.reg) (st.cpu.rsp, st.mem)).1
        (pushWords st.cpu.cr3 (rs.map st.cpu.reg) (st.cpu.rsp, st.mem)).2) := by
  induction rs generalizing st with
  | nil => rfl
  | cons r rs ih => exact ih (st.push (st.cpu.reg r))

/-- A block of pushes. -/
theorem runCode_pushes (env : Environment κ σ) (code : List (Instr κ)) (rs : List Reg)
    (st : CodeState σ) {b : UInt64} (hhalf : InHalf b (8 * rs.length))
    (hsp : st.cpu.rsp.toNat = b.toNat + 8 * rs.length) :
    ∃ m, runCode env (rs.map .push ++ code) 0 st = runCode env code 0 (st.withStack b m) ∧
      Words m (place st.cpu.cr3 b) (rs.map st.cpu.reg).reverse ∧
      ∀ x, (x < place st.cpu.cr3 b ∨ place st.cpu.cr3 b + 8 * rs.length ≤ x) → m x = st.mem x := by
  have hlength : (rs.map st.cpu.reg).length = rs.length := List.length_map _
  obtain ⟨hb, hwords, hout⟩ := pushWords_pushed st.cpu.cr3 (rs.map st.cpu.reg)
    st.mem (by rwa [hlength]) (by rwa [hlength])
  rw [hlength] at hout
  exact ⟨_, by rw [runCode_pushWords, hb], hwords, hout⟩

theorem CodeState.word_eq {a w : UInt64} (h : st.mem.load 8 (place st.cpu.cr3 a) = w.toNat) :
    st.word a = w := by
  rw [word, h, UInt64.ofNat_toNat]

/-- The registers that a block of pops has set, when the words on the stack are the
values of `f` for them. -/
def popped (rs : List Reg) (f old : Reg → UInt64) : Reg → UInt64 :=
  fun r => if r ∈ rs then f r else old r

/-- A block of pops. -/
theorem runCode_pops (env : Environment κ σ) (code : List (Instr κ)) (rs : List Reg)
    (st : CodeState σ) {f : Reg → UInt64} {sp : UInt64}
    (hhalf : InHalf st.cpu.rsp (8 * rs.length)) (hsp : sp.toNat = st.cpu.rsp.toNat + 8 * rs.length)
    (hwords : Words st.mem (place st.cpu.cr3 st.cpu.rsp) (rs.map f)) :
    runCode env (rs.map .pop ++ code) 0 st =
      runCode env code 0
        { st with cpu := { st.cpu with reg := popped rs f st.cpu.reg, rsp := sp } } := by
  induction rs generalizing st with
  | nil =>
      have hsame : sp = st.cpu.rsp := UInt64.toNat_inj.mp hsp
      have hreg : popped [] f st.cpu.reg = st.cpu.reg := funext fun r => if_neg List.not_mem_nil
      rw [hsame, hreg]
      rfl
  | cons r rs ih =>
      rw [List.length_cons] at hhalf hsp
      have hbound := sp.toNat_lt
      have height : (8 : UInt64).toNat = 8 := rfl
      have hnext : (st.cpu.rsp + 8).toNat = st.cpu.rsp.toNat + 8 := toNat_add_eq (by omega)
      have hword : st.word st.cpu.rsp = f r := CodeState.word_eq hwords.1
      have hhalf' : InHalf (st.cpu.rsp + 8) (8 * rs.length) := hhalf.part hnext (by omega)
      have hstep : runCode env ((r :: rs).map .pop ++ code) 0 st =
          runCode env (rs.map .pop ++ code) 0 (st.pop r) := rfl
      have hpop : st.pop r = { st with cpu :=
          { st.cpu.set r (f r) with rsp := st.cpu.rsp + 8 } } := by rw [CodeState.pop, hword]
      rw [hstep, hpop, ih { st with cpu := _ } hhalf' (by simp only; omega) ?_]
      · have hreg : popped rs f (Function.update st.cpu.reg r (f r)) =
            popped (r :: rs) f st.cpu.reg := by
          funext q
          by_cases hq : q ∈ rs
          · simp [popped, hq]
          · by_cases hqr : q = r
            · simp [popped, hqr]
            · simp [popped, hq, hqr]
        simp only [Cpu.set, hreg]
      · cases rs with
        | nil => trivial
        | cons r' rs =>
            have hplace : place st.cpu.cr3 (st.cpu.rsp + 8) = place st.cpu.cr3 st.cpu.rsp + 8 :=
              place_add hhalf hnext (by rw [List.length_cons]; omega)
            simp only [Cpu.set, hplace]
            exact hwords.2

theorem CodeState.interrupt_cr3 (ringStack gateCs : UInt64) (st : CodeState σ) :
    (st.interrupt ringStack gateCs).cpu.cr3 = st.cpu.cr3 := rfl

theorem CodeState.interruptOn_pushes (st : CodeState σ) (gateCs : UInt64) {top b : UInt64} (hhalf : InHalf b 40)
    (hstack : top.toNat = b.toNat + 40) :
    (st.interruptOn top gateCs).cpu.rsp = b ∧
      Words (st.interruptOn top gateCs).mem (place st.cpu.cr3 b) (interruptFrame st.cpu) ∧
      ∀ x, (x < place st.cpu.cr3 b ∨ place st.cpu.cr3 b + 40 ≤ x) →
        (st.interruptOn top gateCs).mem x = st.mem x := by
  obtain ⟨hrsp, hframe, hout⟩ := pushWords_pushed st.cpu.cr3
    (interruptFrame st.cpu).reverse st.mem hhalf hstack
  rw [List.reverse_reverse] at hframe
  exact ⟨hrsp, hframe, hout⟩

/-- Five words, read one by one. -/
theorem CodeState.word_frame (st : CodeState σ) {a w₀ w₁ w₂ w₃ w₄ : UInt64} {ws : List UInt64}
    (hhalf : InHalf a 40)
    (hwords : Words st.mem (place st.cpu.cr3 a) (w₀ :: w₁ :: w₂ :: w₃ :: w₄ :: ws)) :
    st.word a = w₀ ∧ st.word (a + 8) = w₁ ∧ st.word (a + 16) = w₂ ∧ st.word (a + 24) = w₃ ∧
      st.word (a + 32) = w₄ := by
  obtain ⟨h₀, h₁, h₂, h₃, h₄, -⟩ := hwords
  have hbound := hhalf.noWrap
  have hplace : ∀ d : UInt64, d.toNat < 40 →
      place st.cpu.cr3 (a + d) = place st.cpu.cr3 a + d.toNat :=
    fun d hd => place_add hhalf (toNat_add_eq (by omega)) hd
  exact ⟨word_eq h₀, word_eq ((congrArg _ (hplace 8 (by decide))).trans h₁),
    word_eq ((congrArg _ (hplace 16 (by decide))).trans h₂),
    word_eq ((congrArg _ (hplace 24 (by decide))).trans h₃),
    word_eq ((congrArg _ (hplace 32 (by decide))).trans h₄)⟩

theorem CodeState.iret_eq (st : CodeState σ) {cpu : Cpu} (hhalf : InHalf st.cpu.rsp 40)
    (hwords : Words st.mem (place st.cpu.cr3 st.cpu.rsp) (interruptFrame cpu)) :
    st.iret = { st with cpu := { cpu with reg := st.cpu.reg, cr3 := st.cpu.cr3 } } := by
  obtain ⟨hrip, hcs, hflags, hrsp, hss⟩ := st.word_frame hhalf hwords
  rw [iret, hrip, hcs, hflags, hrsp, hss]

end Execution

end Foundation
