import BayosKernel.ContextSwitch
import Mathlib.Data.Set.BooleanAlgebra
import Mathlib.Order.CompletePartialOrder

/-!
The registers of every waiting process are in its `cpu_status`, and the conditions under
which the steps leave them there.
-/

namespace BayosKernel

open Foundation

/-- What the linker gives: `kernel_stack` lies in the upper half and ends at a multiple
of 16. -/
structure RingStack (ringStack : UInt64) : Prop where
  upper : 0x800000001000 ≤ ringStack.toNat
  aligned : ringStack &&& ~~~15 = ringStack

/-- The `cpu_status` ends with `kernel_stack`. -/
def SwitchState.OnRing (ringStack : UInt64) (s : SwitchState) (p : Ptr) : Prop :=
  ringStack.toNat = (s.proc p).context + 160

instance (ringStack : UInt64) (s : SwitchState) (p : Ptr) : Decidable (s.OnRing ringStack p) :=
  inferInstanceAs (Decidable (_ = _))

structure Saved (ringStack : UInt64) (s : SwitchState) (p : Ptr) (cpu : Cpu) : Prop where
  context_lt : (s.proc p).context < 0x10000000000000000
  half : InHalf (UInt64.ofNat (s.proc p).context) 160
  words : Words s.code.mem (s.frame p) (cpuStatus cpu)
  cr3 : cpu.cr3 = UInt64.ofNat (s.proc p).cr3
  within : s.OnRing ringStack p ∨ ∀ x, s.frame p ≤ x → x < s.frame p + 160 → x ∈ s.areas p

/-- The scheduler stays among the inserted processes, whose bytes are apart. -/
structure Kept (ringStack : UInt64) (s : SwitchState) : Prop where
  nodup : s.inserted.Nodup
  current_mem : s.current ∈ s.inserted
  head : s.code.kernel.processList = NULL ∨ s.code.kernel.processList ∈ s.inserted
  next : ∀ p ∈ s.inserted, s.code.kernel.next p = NULL ∨ s.code.kernel.next p ∈ s.inserted
  pointer : ∀ p ∈ s.inserted, 0x10000000000000 ≤ p ∧ p < 0x10000000000000000
  space : ∀ p ∈ s.inserted, (s.proc p).cr3 < 0x10000000000000
  cr3 : s.code.cpu.cr3 = UInt64.ofNat (s.proc s.current).cr3
  apart : ∀ p q, s.Live p → s.Live q → p ≠ q → Disjoint (s.areas p) (s.areas q)
  ring : ∀ p, s.Live p → Disjoint (s.areas p) (ringArea ringStack)

/-- Every process has the processor that it has in `t`. -/
structure TimeShared (ringStack : UInt64) (s : SwitchState) (t : TimeState Ptr Cpu) : Prop
    extends Kept ringStack s where
  current : t.current = s.current
  cpu : t.cpu s.current = s.code.cpu
  saved : ∀ p, s.Waiting p → Saved ringStack s p (t.cpu p)

/-- The frame of an interrupt and what the functions of the handler leave below it fit on
the stack that the interrupt uses. -/
structure Room (ringStack : UInt64) (s : SwitchState) (left : HandlerCall → Scratch) : Prop where
  kernel : s.code.cpu.ring = 0 → ∃ (b : UInt64) (depth : Nat),
    (s.code.cpu.rsp &&& ~~~15).toNat = b.toNat + 160 ∧ InHalf b 160 ∧
      (∀ f, (left f).depth ≤ depth) ∧
      ∀ x, place s.code.cpu.cr3 b - depth ≤ x → x < place s.code.cpu.cr3 b + 160 →
        x ∈ s.areas s.current
  user : s.code.cpu.ring ≠ 0 → ∀ f, (left f).depth + 160 ≤ 0x1000

/-- An interrupt of ring 3 finds no `cpu_status` on `kernel_stack`. -/
def RingFree (ringStack : UInt64) (s : SwitchState) : Prop :=
  s.code.cpu.ring ≠ 0 → ∀ p, s.Waiting p → ¬s.OnRing ringStack p

/-- Bytes that no live process has, and that are not those of `kernel_stack`. -/
structure Unclaimed (ringStack : UInt64) (s : SwitchState) (area : Set Nat) : Prop where
  apart : ∀ p, s.Live p → Disjoint (s.areas p) area
  ring : Disjoint area (ringArea ringStack)

/-- A process struct that the allocator may return. -/
structure FreshStruct (s : SwitchState) (p : Ptr) : Prop where
  fresh : p ∉ s.inserted
  low : 0x10000000000000 ≤ p
  high : p < 0x10000000000000000

/-- The conditions under which the steps keep the registers of the other processes. -/
def SwitchAction.Orderly (ringStack : UInt64) (s : SwitchState) : SwitchAction → Prop
  | .exec _ mem => ∀ x, x ∉ s.areas s.current → mem x = s.code.mem x
  | .claim area =>
      (∀ p, s.Live p → p ≠ s.current → Disjoint (s.areas p) area) ∧
        Disjoint area (ringArea ringStack)
  | .timer left => Room ringStack s left ∧ RingFree ringStack s
  | .keyboard left _ woken =>
      Room ringStack s left ∧ RingFree ringStack s ∧
        ∀ p, woken = some p → s.code.kernel.status p ≠ .dead
  | .addProcess p stack _ area =>
      FreshStruct s p ∧ Unclaimed ringStack s area ∧ 0x800000000000 ≤ stack ∧
        stack + 0x2000 ≤ 0x10000000000000000 ∧ ∀ x, stack ≤ x → x < stack + 0x2000 → x ∈ area
  | .fork p newCr3 context _ _ _ area =>
      let proc := s.proc s.current
      FreshStruct s p ∧ Unclaimed ringStack s area ∧ newCr3.toNat < 0x10000000000000 ∧
        0x200000 ≤ context.toNat ∧
        context.toNat + 160 ≤ 0x200000 + proc.elfEnd ∧ context.toNat + 160 ≤ 0x800000 ∧
        (∀ x, place s.code.cpu.cr3 context ≤ x → x < place s.code.cpu.cr3 context + 160 →
          x ∈ s.areas s.current) ∧
        ∀ x, place newCr3 0 + 0x200000 ≤ x →
          (x < place newCr3 0 + 0x200000 + (proc.elfEnd + 0xfff) / 0x1000 * 0x1000 ∨
            x < place newCr3 0 + 0x800000 + (proc.anonAllocateEnd + 0xfff) / 0x1000 * 0x1000) →
          x ∈ area
  | .setStatus p status => s.code.kernel.status p = .dead → status = .dead
  | .reap p =>
      s.code.kernel.status p = .dead ∧ p ≠ s.current ∧ p ∈ s.inserted ∧
        ∃ l, s.code.kernel.Listed l ∧ ∀ q ∈ s.inserted, q ∈ l

end BayosKernel
