import BayosKernel.Foundation.BitField
import BayosKernel.Foundation.PackedStructs
import BayosKernel.Exceptions

/-!
The tables of `interrupts.c` and `gdt.c` in memory, as the processor reads them: gates,
segments and the stacks of the task state.

`idt`, `gdt` and `tss` are the addresses of the tables `idt`, `gdt_inst` and `tss_inst`.
-/

namespace BayosKernel

open Foundation

/-- The addresses that the linker gives. -/
structure KernelSymbols where
  idt : Nat
  gdt : Nat
  tss : Nat
  kernelStack : Nat
  doubleFaultStack : Nat
  isrStubTable : Nat → Nat
  timerIntHandler : Nat
  keyboardHandler : Nat

/-- `idt_set_descriptor`. -/
def idtSetDescriptor (idt entry isr flags ist : Nat) (m : ByteMemory) : ByteMemory :=
  storeFields m (idt + 16 * entry)
    [(2, isr &&& 0xffff), (2, 0x8), (1, ist &&& 0x7), (1, flags), (2, isr >>> 16 &&& 0xffff),
      (4, isr >>> 32 &&& 0xffffffff), (4, 0)]

/-- An entry of the interrupt table. -/
structure Gate where
  offset : Nat
  selector : Nat
  ist : Nat
  attr : Nat
  deriving DecidableEq, Repr

def gate (idt v : Nat) (m : ByteMemory) : Option Gate :=
  match loadFields m (idt + 16 * v) [2, 2, 1, 1, 2, 4, 4] with
  | [low, selector, ist, attr, mid, high, _] =>
      some ⟨low + 0x10000 * mid + 0x100000000 * high, selector, ist % 8, attr⟩
  | _ => none

/-- A segment descriptor: base, limit, access byte and flags. -/
structure GdtSegment where
  base : Nat
  limit : Nat
  access : Nat
  flags : Nat
  deriving DecidableEq, Repr

def segment (gdt selector : Nat) (m : ByteMemory) : Option GdtSegment :=
  match loadFields m (gdt + selector / 8 * 8) [2, 2, 1, 1, 1, 1] with
  | [limit, low, mid, access, granularity, high] =>
      some ⟨low + 0x10000 * mid + 0x1000000 * high, limit + 0x10000 * (granularity % 16), access,
        granularity / 16⟩
  | _ => none

section Gates

variable {idt entry isr flags ist v left i : Nat} {m m' : ByteMemory} {isrStubTable : Nat → Nat}

theorem gate_congr (h : ∀ x, idt + 16 * v ≤ x → x < idt + 16 * v + 16 → m' x = m x) :
    gate idt v m' = gate idt v m := by
  rw [gate, gate, loadFields_congr (m := m) h]

/-- An entry is read as it was set. -/
theorem gate_set_same (hisr : isr < 0x10000000000000000) (hflags : flags < 0x100)
    (hist : ist < 8) :
    gate idt v (idtSetDescriptor idt v isr flags ist m) = some ⟨isr, 0x8, ist, flags⟩ := by
  have hlow : isr &&& 0xffff = isr % 0x10000 := BitField.and_low_mask isr 16
  have hmid : isr >>> 16 &&& 0xffff = isr / 0x10000 % 0x10000 := by
    rw [Nat.shiftRight_eq_div_pow]
    exact BitField.and_low_mask _ 16
  have hhigh : isr >>> 32 &&& 0xffffffff = isr / 0x100000000 := by
    rw [Nat.shiftRight_eq_div_pow]
    exact (BitField.and_low_mask _ 32).trans (Nat.mod_eq_of_lt (by omega))
  have hist' : ist &&& 0x7 = ist := (BitField.and_low_mask ist 3).trans (Nat.mod_eq_of_lt hist)
  rw [gate, idtSetDescriptor, hlow, hmid, hhigh, hist']
  have hfields := @loadFields_store m (idt + 16 * v)
    [(2, isr % 0x10000), (2, 0x8), (1, ist), (1, flags), (2, isr / 0x10000 % 0x10000),
      (4, isr / 0x100000000), (4, 0)] (by
        simp only [List.mem_cons, List.not_mem_nil, or_false, forall_eq_or_imp, forall_eq,
          ByteMemory.capacity]
        omega)
  simp only [List.map_cons, List.map_nil] at hfields
  rw [hfields]
  simp only [Option.some.injEq, Gate.mk.injEq, and_true, true_and]
  omega

theorem idtSetDescriptor_outside {x : Nat} (h : x < idt + 16 * entry ∨ idt + 16 * entry + 16 ≤ x) :
    idtSetDescriptor idt entry isr flags ist m x = m x :=
  storeFields_outside h

theorem gate_set_other (hne : v ≠ entry) :
    gate idt v (idtSetDescriptor idt entry isr flags ist m) = gate idt v m :=
  gate_congr fun x hle hlt => idtSetDescriptor_outside (by omega)

end Gates

section Segments

variable {gdt addr selector : Nat} {m m' : ByteMemory}

end Segments

/-- The tables do not overlap, and every address has 64 bits. -/
structure KernelSymbols.Placed (k : KernelSymbols) : Prop where
  idtGdt : k.idt + 0x1000 ≤ k.gdt ∨ k.gdt + 0x38 ≤ k.idt
  idtTss : k.idt + 0x1000 ≤ k.tss ∨ k.tss + 104 ≤ k.idt
  gdtTss : k.gdt + 0x38 ≤ k.tss ∨ k.tss + 104 ≤ k.gdt
  tss : k.tss < 0x10000000000000000
  kernelStack : k.kernelStack + 0x1000 < 0x10000000000000000
  doubleFaultStack : k.doubleFaultStack + 0x1000 < 0x10000000000000000
  isrStubTable : ∀ v, k.isrStubTable v < 0x10000000000000000
  timerIntHandler : k.timerIntHandler < 0x10000000000000000
  keyboardHandler : k.keyboardHandler < 0x10000000000000000

section Boot

variable {k : KernelSymbols} {m m' : ByteMemory} {v x : Nat}

end Boot

/-- A kernel in the last two gigabytes. -/
def sampleSymbols : KernelSymbols where
  idt := 0xffffffff80010000
  gdt := 0xffffffff80011000
  tss := 0xffffffff80011040
  kernelStack := 0xffffffff80012000
  doubleFaultStack := 0xffffffff80013000
  isrStubTable := fun v => 0xffffffff80002000 + 32 * (v % 32)
  timerIntHandler := 0xffffffff80003000
  keyboardHandler := 0xffffffff80003100

theorem sampleSymbols_placed : sampleSymbols.Placed where
  idtGdt := by decide
  idtTss := by decide
  gdtTss := by decide
  tss := by decide
  kernelStack := by decide
  doubleFaultStack := by decide
  isrStubTable := fun v => by
    have hlt := Nat.mod_lt v (show 0 < 32 by decide)
    change 0xffffffff80002000 + 32 * (v % 32) < 0x10000000000000000
    omega
  timerIntHandler := by decide
  keyboardHandler := by decide

end BayosKernel
