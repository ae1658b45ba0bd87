import BayosKernel.Foundation.InterruptController
import BayosKernel.Foundation.Machine
import BayosKernel.ProcessorTables

/-!
The interrupts of the hardware from the boot on: the ports that `sched_init`,
`keyboard_process_init` and the handlers access, the two interrupt controllers and the keyboard.

What a process does between its interrupts is only seen in the interrupt flag, which may
be set and cleared at any time after the `sti` of `_start`.
-/

namespace BayosKernel

open Foundation

/-- The statements of the boot that matter for the interrupts. -/
inductive BootStep where
  | idtSetDescriptor (entry isr flags ist : Nat)
  | outb (port : UInt16) (val : UInt8)
  | sti
  | readMask
  | writeMask
  deriving DecidableEq, Repr

/-- `outb` and `io_wait`. -/
def outbWait (port : UInt16) (val : UInt8) : List BootStep := [.outb port val, .outb 0x80 0]

/-- The timer counts 1193182 times a second. -/
def pitDivisor : Nat := 1193182 / 100

/-- `sched_init`, up to the process. -/
def schedInit (k : KernelSymbols) : List BootStep :=
  .idtSetDescriptor 0x20 k.timerIntHandler 0x8e 0 ::
    (outbWait 0x20 (0x10 ||| 0x01) ++ outbWait 0xa0 (0x10 ||| 0x01) ++
      outbWait 0x21 0x20 ++ outbWait 0xa1 0x28 ++ outbWait 0x21 0x04 ++ outbWait 0xa1 0x02 ++
      outbWait 0x21 0x01 ++ outbWait 0xa1 0x01 ++ outbWait 0x21 (~~~1) ++ outbWait 0xa1 0xff ++
      [.outb 0x43 0x36, .outb 0x40 (UInt8.ofNat (pitDivisor % 0x100)),
        .outb 0x40 (UInt8.ofNat (pitDivisor / 0x100))])

/-- `keyboard_process_init`; its `value` is read from the mask and written to it. -/
def keyboardProcessInit (k : KernelSymbols) : List BootStep :=
  [.idtSetDescriptor 0x21 k.keyboardHandler 0x8e 0, .readMask, .writeMask]

/-- An access to a port in a handler. -/
inductive PortAccess where
  | out (port val : UInt8)
  | inp (port : UInt8)
  deriving DecidableEq, Repr

/-- The accesses of a handler, from a value of `al` on. -/
def portAccesses : UInt8 → List (Instr HandlerCall) → List PortAccess
  | _, [] => []
  | _, .movAl v :: code => portAccesses v code
  | al, .outAl port :: code => .out port al :: portAccesses al code
  | al, .inAl port :: code => .inp port :: portAccesses al code
  | al, _ :: code => portAccesses al code

/-- The accesses of the handler behind a gate. -/
def handlerPorts (k : KernelSymbols) : Option Gate → List PortAccess
  | some g =>
      if g.offset = k.timerIntHandler then portAccesses 0 timerIntHandler
      else if g.offset = k.keyboardHandler then portAccesses 0 keyboardHandlerEntry
      else []
  | none => []

/-- A byte for a port; those of the timer and of `io_wait` are none of the controllers'. -/
def outPort (c : PicPair) (port : UInt16) (val : UInt8) : Option PicPair :=
  if port = 0x20 then (c.master.command val).map fun p => { c with master := p }
  else if port = 0xa0 then (c.slave.command val).map fun p => { c with slave := p }
  else if port = 0x21 then some { c with master := c.master.data val }
  else if port = 0xa1 then some { c with slave := c.slave.data val }
  else some c

/-- The line of a device: at the first or at the second controller. -/
inductive DeviceLine where
  | master (l : Fin 8)
  | slave (l : Fin 8)
  deriving DecidableEq, Repr

/-- `handling` are the accesses that a handler still makes, `buffer` and `queue` the scancodes in
the keyboard, and `scancodes` those that its handler has read. -/
structure IrqState where
  pics : PicPair
  mem : ByteMemory
  todo : List BootStep
  value : UInt8
  flag : Bool
  handling : Option (List PortAccess)
  accepted : List (Nat × Option Gate)
  buffer : Option UInt8
  queue : List UInt8
  pressed : List UInt8
  scancodes : List UInt8

inductive IrqAction where
  | boot
  | interrupt
  | port
  | iret (flag : Bool)
  | yield
  | setFlag (flag : Bool)
  | raise (line : DeviceLine)
  | key (scancode : UInt8)
  | other (mem : ByteMemory)

namespace IrqState

def bootStep (idt : Nat) (s : IrqState) : BootStep → Option IrqState
  | .idtSetDescriptor entry isr flags ist =>
      some { s with mem := BayosKernel.idtSetDescriptor idt entry isr flags ist s.mem }
  | .outb port val => (outPort s.pics port val).map fun c => { s with pics := c }
  | .sti => some { s with flag := true }
  | .readMask => some { s with value := s.pics.master.mask &&& ~~~((1 : UInt8) <<< 1) }
  | .writeMask => (outPort s.pics 0x21 s.value).map fun c => { s with pics := c }

/-- The keyboard asks for an interrupt with each scancode that it has ready. -/
def ready (s : IrqState) : IrqState :=
  if s.buffer.isSome then
    { s with pics := { s.pics with master := s.pics.master.request 1 } }
  else s

/-- The scancode that is ready is read, and the next one follows it. -/
def readKey (s : IrqState) : Option IrqState :=
  s.buffer.map fun scancode =>
    ready
      { s with
        scancodes := s.scancodes ++ [scancode], buffer := s.queue.head?, queue := s.queue.tail }

def access (s : IrqState) : PortAccess → Option IrqState
  | .out port val => (outPort s.pics port.toUInt16 val).map fun c => { s with pics := c }
  | .inp port => if port = 0x60 then s.readKey else none

def step (k : KernelSymbols) (s : IrqState) : IrqAction → Option IrqState
  | .boot =>
      match s.handling, s.todo with
      | none, step :: rest => (s.bootStep k.idt step).map fun s => { s with todo := rest }
      | _, _ => none
  | .interrupt =>
      if s.flag ∧ s.handling = none then
        s.pics.acknowledge.map fun (v, c) =>
          let g := gate k.idt v.toNat s.mem
          { s with
            pics := c, flag := false, handling := some (handlerPorts k g)
            accepted := s.accepted ++ [(v.toNat, g)] }
      else none
  | .port =>
      match s.handling with
      | some (a :: rest) => (s.access a).map fun s => { s with handling := some rest }
      | _ => none
  | .iret flag =>
      if s.handling = some [] then some { s with handling := none, flag := flag } else none
  | .yield =>
      if s.handling = none ∧ .sti ∉ s.todo then
        some { s with flag := false, handling := some (handlerPorts k (gate k.idt 0x20 s.mem)) }
      else none
  | .setFlag flag =>
      if s.handling = none ∧ .sti ∉ s.todo then some { s with flag := flag } else none
  | .raise (.master l) =>
      if l = 1 then none
      else some { s with pics := { s.pics with master := s.pics.master.request l } }
  | .raise (.slave l) => some { s with pics := { s.pics with slave := s.pics.slave.request l } }
  | .key scancode =>
      let s := { s with pressed := s.pressed ++ [scancode] }
      if s.buffer.isNone then some (ready { s with buffer := some scancode })
      else some { s with queue := s.queue ++ [scancode] }
  | .other mem => some { s with mem := mem }

/-- No key is pressed before the controllers are reset, which forgets requests, and nothing
else writes to the table of the gates. -/
def Allows (k : KernelSymbols) (s : IrqState) : IrqAction → Prop
  | .key _ => BootStep.outb 0x20 0x11 ∉ s.todo
  | .other mem => ∀ x, k.idt ≤ x → x < k.idt + 0x1000 → mem x = s.mem x
  | _ => True

end IrqState

def irqMachine (k : KernelSymbols) : Machine IrqState IrqAction := ⟨IrqState.step k⟩

def timerGate (k : KernelSymbols) : Gate := ⟨k.timerIntHandler, 0x8, 0, 0x8e⟩

def keyboardGate (k : KernelSymbols) : Gate := ⟨k.keyboardHandler, 0x8, 0, 0x8e⟩

/-- Before `sched_init`: the controllers and the memory are as the bootloader leaves them. -/
structure IrqStart (k : KernelSymbols) (s : IrqState) : Prop where
  todo : s.todo = schedInit k ++ .sti :: keyboardProcessInit k
  flag : s.flag = false
  handling : s.handling = none
  accepted : s.accepted = []
  buffer : s.buffer = none
  queue : s.queue = []
  pressed : s.pressed = s.scancodes

/-- The writes of the boot to the ports, one after the other. -/
def settle : List BootStep → PicPair → Option PicPair
  | [], c => some c
  | .idtSetDescriptor .. :: rest, c => settle rest c
  | .outb port val :: rest, c => (outPort c port val).bind (settle rest)
  | _ :: _, _ => none

/-- The controllers after `sched_init`, with a mask for the first one. -/
structure PicsReady (mask : UInt8) (c : PicPair) : Prop where
  master : c.master.setup =
    ⟨.mask, false, true, 0x20, 4, 1, mask, fun _ => false, fun _ => false⟩
  slave : c.slave.setup =
    ⟨.mask, false, true, 0x28, 2, 1, 0xff, fun _ => false, fun _ => false⟩
  slaveIdle : c.slave.Idle

/-- `sched_init` brings the controllers into one state, wherever they were. -/
theorem settle_schedInit (k : KernelSymbols) (c : PicPair) :
    ∃ c', settle (schedInit k) c = some c' ∧ PicsReady 0xfe c' ∧ c'.master.Idle :=
  ⟨_, rfl, ⟨rfl, rfl, fun _ => rfl⟩, fun _ => rfl⟩

/-- Requests make no difference to the set-up. -/
theorem outPort_quiet (c : PicPair) (port : UInt16) (val : UInt8) :
    outPort c.quiet port val = (outPort c port val).map PicPair.quiet := by
  unfold outPort
  split
  · simp only [PicPair.quiet, Pic.quiet_command, Option.map_map]
    rfl
  split
  · simp only [PicPair.quiet, Pic.quiet_command, Option.map_map]
    rfl
  split
  · simp only [PicPair.quiet, Pic.quiet_data, Option.map_some]
  split
  · simp only [PicPair.quiet, Pic.quiet_data, Option.map_some]
  · rfl

/-- Only the reset of a controller forgets requests. -/
theorem outPort_requested {c c' : PicPair} {port : UInt16} {val : UInt8}
    (h : outPort c port val = some c') (hreset : port = 0x20 → val.toNat.testBit 4 = false) :
    c'.master.requested = c.master.requested := by
  unfold outPort at h
  split at h
  · rename_i hport
    obtain ⟨p, hp, rfl⟩ := Option.map_eq_some_iff.mp h
    rw [Pic.command, hreset hport] at hp
    split at hp
    · rename_i hbit
      cases hbit
    split at hp
    · cases hp
      exact Pic.endOfInterrupt_requested
    · cases hp
  split at h
  · obtain ⟨p, -, rfl⟩ := Option.map_eq_some_iff.mp h
    rfl
  split at h
  · cases h
    exact Pic.data_requested
  split at h
  · cases h
    rfl
  · cases h
    rfl

/-- The one reset of the first controller. -/
theorem schedInit_reset {k : KernelSymbols} {val : UInt8} (h : .outb 0x20 val ∈ schedInit k) :
    val = 0x11 := by
  have hval : val = 0x10 ||| 0x01 := by simpa [schedInit, outbWait] using h
  exact hval

/-- The one gate that `sched_init` sets. -/
theorem schedInit_gate {k : KernelSymbols} {entry isr flags ist : Nat}
    (h : .idtSetDescriptor entry isr flags ist ∈ schedInit k) :
    BootStep.idtSetDescriptor entry isr flags ist =
      .idtSetDescriptor 0x20 k.timerIntHandler 0x8e 0 := by
  simpa [schedInit, outbWait] using h

/-- How far the boot has got behind the `sti`, with the mask of the first controller. -/
inductive BootPoint (k : KernelSymbols) (m : ByteMemory) (value : UInt8) :
    List BootStep → UInt8 → Prop where
  | gate : BootPoint k m value (keyboardProcessInit k) 0xfe
  | readMask (keyboard : gate k.idt 0x21 m = some (keyboardGate k)) :
      BootPoint k m value [.readMask, .writeMask] 0xfe
  | writeMask (keyboard : gate k.idt 0x21 m = some (keyboardGate k)) (unmasked : value = 0xfc) :
      BootPoint k m value [.writeMask] 0xfe
  | done (keyboard : gate k.idt 0x21 m = some (keyboardGate k)) : BootPoint k m value [] 0xfc

/-- The accesses that a handler has left: the end of the interrupt comes first. -/
inductive HandlerPoint (p : Pic) : Option (List PortAccess) → Prop where
  | none (idle : p.Idle) : HandlerPoint p none
  | timer (idle : p.endOfInterrupt.Idle) : HandlerPoint p (some [.out 0x20 0x20])
  | keyboard (idle : p.endOfInterrupt.Idle) : HandlerPoint p (some [.out 0x20 0x20, .inp 0x60])
  | read (idle : p.Idle) : HandlerPoint p (some [.inp 0x60])
  | last (idle : p.Idle) : HandlerPoint p (some [])

namespace IrqState

/-- The handler of the keyboard has not read the scancode yet. -/
def Reading (s : IrqState) : Prop := ∃ rest, s.handling = some rest ∧ .inp 0x60 ∈ rest

/-- Before the `sti`: the rest of `sched_init` sets the controllers up. -/
structure Early (k : KernelSymbols) (s : IrqState) (rest : List BootStep) : Prop where
  todo : s.todo = rest ++ .sti :: keyboardProcessInit k
  suffix : rest <:+ schedInit k
  flag : s.flag = false
  handling : s.handling = none
  settles : ∃ c, settle rest s.pics.quiet = some c ∧ PicsReady 0xfe c ∧ c.master.Idle
  timer : .idtSetDescriptor 0x20 k.timerIntHandler 0x8e 0 ∈ rest ∨
    gate k.idt 0x20 s.mem = some (timerGate k)
  unset : .outb 0x20 0x11 ∈ rest → s.buffer = none
  asked : .outb 0x20 0x11 ∉ rest → s.pics.master.requested 1 = s.buffer.isSome

/-- Behind the `sti`: a scancode that is ready has asked for an interrupt. -/
structure Started (k : KernelSymbols) (s : IrqState) (mask : UInt8) : Prop where
  boot : BootPoint k s.mem s.value s.todo mask
  ready : PicsReady mask s.pics
  timer : gate k.idt 0x20 s.mem = some (timerGate k)
  handler : HandlerPoint s.pics.master s.handling
  asked : ¬s.Reading → s.pics.master.requested 1 = s.buffer.isSome
  reads : s.Reading → s.buffer.isSome = true ∧ s.pics.master.requested 1 = false

/-- Every scancode is in the keyboard or has been read, in the order of the keys. -/
structure Keys (s : IrqState) : Prop where
  pressed : s.pressed = s.scancodes ++ s.buffer.toList ++ s.queue
  queue : s.buffer = none → s.queue = []

end IrqState

structure IrqInv (k : KernelSymbols) (s : IrqState) : Prop where
  phase : (∃ rest, s.Early k rest) ∨ ∃ mask, s.Started k mask
  gates : ∀ e ∈ s.accepted, e = (0x20, some (timerGate k)) ∨ e = (0x21, some (keyboardGate k))
  keys : s.Keys

section Steps

variable {k : KernelSymbols} {s s' : IrqState} {mask : UInt8} {rest : List BootStep}

theorem IrqStart.inv (h : IrqStart k s) : IrqInv k s := by
  refine ⟨Or.inl ⟨schedInit k, h.todo, List.suffix_refl _, h.flag, h.handling,
    settle_schedInit k _, Or.inl List.mem_cons_self, fun _ => h.buffer, fun hreset => ?_⟩, ?_,
    ?_, fun _ => h.queue⟩
  · exact absurd (List.mem_cons_of_mem _ List.mem_cons_self) hreset
  · simp [h.accepted]
  · simp [h.pressed, h.buffer, h.queue]

namespace IrqState

theorem ready_eq (s : IrqState) : s.ready = { s with pics := s.ready.pics } := by
  unfold ready
  split <;> rfl

/-- What a statement of the boot leaves alone. -/
theorem bootStep_kept {idt : Nat} {x : BootStep} (h : s.bootStep idt x = some s') :
    s' = { s with pics := s'.pics, mem := s'.mem, value := s'.value, flag := s'.flag } := by
  cases x with
  | idtSetDescriptor entry isr flags ist =>
      cases h
      rfl
  | outb port val =>
      obtain ⟨c, -, rfl⟩ := Option.map_eq_some_iff.mp h
      rfl
  | sti =>
      cases h
      rfl
  | readMask =>
      cases h
      rfl
  | writeMask =>
      rw [bootStep] at h
      obtain ⟨c, -, rfl⟩ := Option.map_eq_some_iff.mp h
      rfl

theorem boot_some (h : s.step k .boot = some s') : s.handling = none ∧ ∃ x rest s₁,
    s.todo = x :: rest ∧ s.bootStep k.idt x = some s₁ ∧ s' = { s₁ with todo := rest } := by
  simp only [step] at h
  split at h
  · rename_i x rest hhandling htodo
    obtain ⟨s₁, hs₁, rfl⟩ := Option.map_eq_some_iff.mp h
    exact ⟨hhandling, x, rest, s₁, htodo, hs₁, rfl⟩
  · cases h

theorem interrupt_some (h : s.step k .interrupt = some s') : s.flag = true ∧ s.handling = none ∧
    ∃ v c, s.pics.acknowledge = some (v, c) ∧ s' = { s with
      pics := c, flag := false, handling := some (handlerPorts k (gate k.idt v.toNat s.mem))
      accepted := s.accepted ++ [(v.toNat, gate k.idt v.toNat s.mem)] } := by
  simp only [step] at h
  split at h
  · rename_i hopen
    obtain ⟨⟨v, c⟩, hack, rfl⟩ := Option.map_eq_some_iff.mp h
    exact ⟨hopen.1, hopen.2, v, c, hack, rfl⟩
  · cases h

theorem port_some (h : s.step k .port = some s') : ∃ a rest s₁,
    s.handling = some (a :: rest) ∧ s.access a = some s₁ ∧
      s' = { s₁ with handling := some rest } := by
  simp only [step] at h
  split at h
  · rename_i a rest hhandling
    obtain ⟨s₁, hs₁, rfl⟩ := Option.map_eq_some_iff.mp h
    exact ⟨a, rest, s₁, hhandling, hs₁, rfl⟩
  · cases h

theorem key_some {scancode : UInt8} (h : s.step k (.key scancode) = some s') :
    (s.buffer = none ∧ s' = { s with
      pressed := s.pressed ++ [scancode], buffer := some scancode
      pics := { s.pics with master := s.pics.master.request 1 } }) ∨
    (s.buffer.isSome = true ∧ s' = { s with
      pressed := s.pressed ++ [scancode], queue := s.queue ++ [scancode] }) := by
  simp only [step] at h
  split at h
  · rename_i hempty
    cases h
    exact Or.inl ⟨Option.isNone_iff_eq_none.mp hempty, rfl⟩
  · rename_i hfull
    cases h
    exact Or.inr ⟨Option.isSome_iff_ne_none.mpr fun hempty => hfull (by simp [hempty]), rfl⟩

/-- A scancode that is read is the next one. -/
theorem readKey_some (h : s.readKey = some s') : ∃ scancode pics, s.buffer = some scancode ∧
    s' = { s with
      pics := pics, scancodes := s.scancodes ++ [scancode], buffer := s.queue.head?
      queue := s.queue.tail } := by
  obtain ⟨scancode, hbuffer, rfl⟩ := Option.map_eq_some_iff.mp h
  exact ⟨scancode, _, hbuffer, ready_eq _⟩

/-- No step but an interrupt adds to the interrupts, and none loses a scancode. -/
theorem Keys.step {a : IrqAction} (h : s.Keys) (hstep : s.step k a = some s') :
    s'.Keys ∧ (a = .interrupt ∨ s'.accepted = s.accepted) := by
  cases a with
  | boot =>
      obtain ⟨-, x, rest, s₁, -, hs₁, rfl⟩ := boot_some hstep
      rw [bootStep_kept hs₁]
      exact ⟨⟨h.pressed, h.queue⟩, Or.inr rfl⟩
  | interrupt =>
      obtain ⟨-, -, v, c, -, rfl⟩ := interrupt_some hstep
      exact ⟨⟨h.pressed, h.queue⟩, Or.inl rfl⟩
  | port =>
      obtain ⟨a, rest, s₁, -, hs₁, rfl⟩ := port_some hstep
      cases a with
      | out port val =>
          obtain ⟨c, -, rfl⟩ := Option.map_eq_some_iff.mp hs₁
          exact ⟨⟨h.pressed, h.queue⟩, Or.inr rfl⟩
      | inp port =>
          rw [access] at hs₁
          split at hs₁
          · obtain ⟨scancode, pics, hbuffer, rfl⟩ := readKey_some hs₁
            refine ⟨⟨?_, fun hempty => ?_⟩, Or.inr rfl⟩
            · rw [h.pressed, hbuffer]
              cases s.queue <;> simp
            · rw [List.head?_eq_none_iff.mp hempty]
              rfl
          · cases hs₁
  | iret flag =>
      obtain ⟨-, heq⟩ := Option.ite_none_right_eq_some.mp hstep
      cases heq
      exact ⟨⟨h.pressed, h.queue⟩, Or.inr rfl⟩
  | yield =>
      obtain ⟨-, heq⟩ := Option.ite_none_right_eq_some.mp hstep
      cases heq
      exact ⟨⟨h.pressed, h.queue⟩, Or.inr rfl⟩
  | setFlag flag =>
      obtain ⟨-, heq⟩ := Option.ite_none_right_eq_some.mp hstep
      cases heq
      exact ⟨⟨h.pressed, h.queue⟩, Or.inr rfl⟩
  | raise line =>
      cases line with
      | master l =>
          obtain ⟨-, heq⟩ := Option.ite_none_left_eq_some.mp hstep
          cases heq
          exact ⟨⟨h.pressed, h.queue⟩, Or.inr rfl⟩
      | slave l =>
          cases hstep
          exact ⟨⟨h.pressed, h.queue⟩, Or.inr rfl⟩
  | key scancode =>
      rcases key_some hstep with ⟨hempty, rfl⟩ | ⟨hfull, rfl⟩
      · refine ⟨⟨?_, fun hnone => by cases hnone⟩, Or.inr rfl⟩
        simp [h.pressed, hempty, h.queue hempty]
      · refine ⟨⟨?_, fun hnone => ?_⟩, Or.inr rfl⟩
        · simp [h.pressed]
        · exact absurd hnone (Option.isSome_iff_ne_none.mp hfull)
  | other mem =>
      cases hstep
      exact ⟨⟨h.pressed, h.queue⟩, Or.inr rfl⟩

end IrqState

theorem PicsReady.of_quiet {c : PicPair} (h : PicsReady mask c.quiet) : PicsReady mask c :=
  ⟨h.master, h.slave, h.slaveIdle⟩

namespace IrqState.Early

/-- A statement of `sched_init` for a port. -/
theorem outb {port : UInt16} {val : UInt8} {c : PicPair}
    (h : s.Early k (.outb port val :: rest)) (hout : outPort s.pics port val = some c) :
    IrqState.Early k
      { s with pics := c, todo := rest ++ .sti :: keyboardProcessInit k } rest := by
  have hquiet : outPort s.pics.quiet port val = some c.quiet := by
    rw [outPort_quiet, hout, Option.map_some]
  obtain ⟨c', hsettle, hready⟩ := h.settles
  rw [settle, hquiet, Option.bind_some] at hsettle
  refine ⟨rfl, (List.suffix_cons _ _).trans h.suffix, h.flag, h.handling,
    ⟨c', hsettle, hready⟩, h.timer.imp_left fun hmem => by simpa using hmem,
    fun hreset => h.unset (List.mem_cons_of_mem _ hreset), fun hreset => ?_⟩
  by_cases hhere : BootStep.outb port val = .outb 0x20 0x11
  · -- the reset: no scancode is ready yet, and none has asked
    cases hhere
    cases hout
    rw [h.unset List.mem_cons_self]
    rfl
  · have hport : port = 0x20 → val.toNat.testBit 4 = false := by
      rintro rfl
      have hmem : BootStep.outb 0x20 val ∈ schedInit k := h.suffix.subset List.mem_cons_self
      exact absurd (congrArg (BootStep.outb 0x20) (schedInit_reset hmem)) hhere
    have hasked := h.asked fun hmem =>
      (List.mem_cons.mp hmem).elim (fun heq => hhere heq.symm) hreset
    exact (congrFun (outPort_requested hout hport) 1).trans hasked

/-- The next statement of `sched_init`, or the `sti` behind it. -/
theorem boot_step (h : s.Early k rest) (htimer : k.timerIntHandler < 0x10000000000000000)
    (hstep : s.step k .boot = some s') :
    (∃ rest, s'.Early k rest) ∨ ∃ mask, s'.Started k mask := by
  obtain ⟨-, x, more, s₁, htodo, hs₁, rfl⟩ := boot_some hstep
  obtain ⟨c, hsettle, hready, hidle⟩ := h.settles
  rw [h.todo] at htodo
  cases rest with
  | nil =>
      cases htodo
      cases hs₁
      cases hsettle
      refine Or.inr ⟨0xfe, .gate, hready.of_quiet, h.timer.resolve_left List.not_mem_nil, ?_,
        fun _ => h.asked List.not_mem_nil, ?_⟩
      · rw [h.handling]
        exact .none hidle
      · rintro ⟨rest, hrest, -⟩
        rw [h.handling] at hrest
        cases hrest
  | cons y rest =>
      obtain ⟨rfl, rfl⟩ := List.cons.inj htodo
      refine Or.inl ⟨rest, ?_⟩
      cases y with
      | idtSetDescriptor entry isr flags ist =>
          cases schedInit_gate (h.suffix.subset List.mem_cons_self)
          cases hs₁
          exact ⟨rfl, (List.suffix_cons _ _).trans h.suffix, h.flag, h.handling,
            ⟨c, hsettle, hready, hidle⟩, Or.inr (gate_set_same htimer (by decide) (by decide)),
            fun hreset => h.unset (List.mem_cons_of_mem _ hreset),
            fun hreset => h.asked fun hmem => hreset (by simpa using hmem)⟩
      | outb port val =>
          obtain ⟨c₁, hc₁, rfl⟩ := Option.map_eq_some_iff.mp hs₁
          exact h.outb hc₁
      | sti => cases hsettle
      | readMask => cases hsettle
      | writeMask => cases hsettle

theorem step {a : IrqAction} (h : s.Early k rest)
    (htimer : k.timerIntHandler < 0x10000000000000000) (hallows : s.Allows k a)
    (hstep : s.step k a = some s') :
    (∃ rest, s'.Early k rest) ∨ ∃ mask, s'.Started k mask := by
  have hsti : .sti ∈ s.todo := by
    rw [h.todo]
    simp
  cases a with
  | boot => exact h.boot_step htimer hstep
  | interrupt =>
      obtain ⟨hflag, -⟩ := interrupt_some hstep
      rw [h.flag] at hflag
      cases hflag
  | port =>
      obtain ⟨a, rest, s₁, hhandling, -⟩ := port_some hstep
      rw [h.handling] at hhandling
      cases hhandling
  | iret flag =>
      obtain ⟨hhandling, -⟩ := Option.ite_none_right_eq_some.mp hstep
      rw [h.handling] at hhandling
      cases hhandling
  | yield => exact absurd hsti (Option.ite_none_right_eq_some.mp hstep).1.2
  | setFlag flag => exact absurd hsti (Option.ite_none_right_eq_some.mp hstep).1.2
  | raise line =>
      cases line with
      | master l =>
          obtain ⟨hline, heq⟩ := Option.ite_none_left_eq_some.mp hstep
          cases heq
          refine Or.inl ⟨rest, h.todo, h.suffix, h.flag, h.handling, h.settles, h.timer, h.unset,
            fun hreset => ?_⟩
          exact (Function.update_of_ne (Ne.symm hline) ..).trans (h.asked hreset)
      | slave l =>
          cases hstep
          exact Or.inl ⟨rest, h.todo, h.suffix, h.flag, h.handling, h.settles, h.timer, h.unset,
            h.asked⟩
  | key scancode =>
      have hreset : .outb 0x20 0x11 ∉ rest := fun hmem => hallows (by
        rw [h.todo]
        exact List.mem_append_left _ hmem)
      rcases key_some hstep with ⟨hempty, rfl⟩ | ⟨hfull, rfl⟩
      · exact Or.inl ⟨rest, h.todo, h.suffix, h.flag, h.handling, h.settles, h.timer,
          fun hmem => absurd hmem hreset, fun _ => Pic.request_self⟩
      · exact Or.inl ⟨rest, h.todo, h.suffix, h.flag, h.handling, h.settles, h.timer, h.unset,
          h.asked⟩
  | other mem =>
      cases hstep
      refine Or.inl ⟨rest, h.todo, h.suffix, h.flag, h.handling, h.settles, h.timer.imp_right
        fun hgate => ?_, h.unset, h.asked⟩
      exact (gate_congr fun x hle hlt => hallows x (by omega) (by omega)).trans hgate

end IrqState.Early

namespace PicsReady

theorem lines {c : PicPair} (h : PicsReady mask c) : c.lines = c.master := by
  have hmask : c.slave.mask = 0xff := congrArg Pic.mask h.slave
  have hslave : c.slave.pending = none := Pic.pending_eq_none fun l => by
    rw [Pic.masked, hmask]
    revert l
    decide
  rw [PicPair.lines, hslave]
  simp

/-- The lines that `sched_init` and `keyboard_process_init` let in. -/
theorem unmasked {c : PicPair} {l : Fin 8} (h : PicsReady mask c)
    (hmask : mask = 0xfe ∨ mask = 0xfc) (hl : c.master.masked l = false) :
    l = 0 ∨ (l = 1 ∧ mask = 0xfc) := by
  have hmaster : c.master.mask = mask := congrArg Pic.mask h.master
  rw [Pic.masked, hmaster] at hl
  rcases hmask with rfl | rfl
  · revert l
    decide
  · revert l
    decide

theorem acknowledge {c : PicPair} (h : PicsReady mask c) (hmask : mask = 0xfe ∨ mask = 0xfc) :
    c.acknowledge = c.master.pending.map fun l =>
      (0x20 + UInt8.ofNat l.val, { c with master := c.master.serve l }) := by
  have hsingle : c.master.single = false := congrArg Pic.single h.master
  have hwiring : c.master.wiring = 4 := congrArg Pic.wiring h.master
  have hmode : c.master.mode = 1 := congrArg Pic.mode h.master
  have hbase : c.master.base = 0x20 := congrArg Pic.base h.master
  rw [PicPair.acknowledge, h.lines]
  cases hpending : c.master.pending with
  | none => rfl
  | some l =>
      have hdirect : c.cascaded l = false := by
        rw [PicPair.cascaded, hsingle, hwiring]
        rcases h.unmasked hmask (Pic.pending_some hpending).2.1 with rfl | ⟨rfl, -⟩
        · decide
        · decide
      have hbit : c.master.mode.toNat.testBit 0 = true := by
        rw [hmode]
        decide
      simp only [Option.bind_some, Option.map_some, hdirect, hbit, hbase, if_true,
        Bool.false_eq_true, if_false]

/-- Neither requests nor services of the first controller are part of the set-up. -/
theorem congr {c : PicPair} {p : Pic} (h : PicsReady mask c) (hp : p.setup = c.master.setup) :
    PicsReady mask { c with master := p } := ⟨hp.trans h.master, h.slave, h.slaveIdle⟩

end PicsReady

namespace BootPoint

variable {m m' : ByteMemory} {value : UInt8} {todo : List BootStep}

theorem mask_cases (h : BootPoint k m value todo mask) : mask = 0xfe ∨ mask = 0xfc := by
  cases h <;> simp

theorem keyboard (h : BootPoint k m value todo 0xfc) :
    BayosKernel.gate k.idt 0x21 m = some (keyboardGate k) := by
  cases h with
  | done keyboard => exact keyboard

theorem congr (h : BootPoint k m value todo mask)
    (hsame : BayosKernel.gate k.idt 0x21 m' = BayosKernel.gate k.idt 0x21 m) :
    BootPoint k m' value todo mask := by
  cases h with
  | gate => exact .gate
  | readMask keyboard => exact .readMask (hsame.trans keyboard)
  | writeMask keyboard unmasked => exact .writeMask (hsame.trans keyboard) unmasked
  | done keyboard => exact .done (hsame.trans keyboard)

end BootPoint

theorem HandlerPoint.congr {p q : Pic} {handling : Option (List PortAccess)}
    (h : HandlerPoint p handling) (hsame : q.inService = p.inService) :
    HandlerPoint q handling := by
  cases h with
  | none idle => exact .none fun l => (congrFun hsame l).trans (idle l)
  | timer idle => exact .timer (Pic.endOfInterrupt_idle_congr idle hsame)
  | keyboard idle => exact .keyboard (Pic.endOfInterrupt_idle_congr idle hsame)
  | read idle => exact .read fun l => (congrFun hsame l).trans (idle l)
  | last idle => exact .last fun l => (congrFun hsame l).trans (idle l)

theorem HandlerPoint.idle {p : Pic} (h : HandlerPoint p Option.none) : p.Idle := by
  cases h with
  | none idle => exact idle

theorem IrqState.not_reading (h : s.handling = none) : ¬s.Reading := by
  rintro ⟨rest, hrest, -⟩
  rw [h] at hrest
  cases hrest

namespace IrqState.Started

/-- `keyboard_process_init` sets its gate before it lets its line in. -/
theorem boot_step (h : s.Started k mask) (hkeyboard : k.keyboardHandler < 0x10000000000000000)
    (hstep : s.step k .boot = some s') : ∃ mask, s'.Started k mask := by
  obtain ⟨hhandling, x, rest, s₁, htodo, hs₁, rfl⟩ := boot_some hstep
  have hready := h.ready
  have hboot := h.boot
  generalize hpoint : s.todo = todo at hboot
  cases hboot with
  | gate =>
      rw [hpoint] at htodo
      cases htodo
      cases hs₁
      have hset : gate k.idt 0x21 (idtSetDescriptor k.idt 0x21 k.keyboardHandler 0x8e 0 s.mem) =
          some (keyboardGate k) := gate_set_same hkeyboard (by decide) (by decide)
      have hother : gate k.idt 0x20 (idtSetDescriptor k.idt 0x21 k.keyboardHandler 0x8e 0 s.mem) =
          gate k.idt 0x20 s.mem := gate_set_other (by decide)
      exact ⟨0xfe, .readMask hset, hready, hother.trans h.timer, h.handler, h.asked, h.reads⟩
  | readMask keyboard =>
      rw [hpoint] at htodo
      cases htodo
      cases hs₁
      have hmask : s.pics.master.mask = 0xfe := congrArg Pic.mask hready.master
      have hvalue : s.pics.master.mask &&& ~~~((1 : UInt8) <<< 1) = 0xfc := by
        rw [hmask]
        decide
      exact ⟨0xfe, .writeMask keyboard hvalue, hready, h.timer, h.handler, h.asked, h.reads⟩
  | writeMask keyboard unmasked =>
      rw [hpoint] at htodo
      cases htodo
      have hphase : s.pics.master.phase = .mask := congrArg Pic.phase hready.master
      have hdata : s.pics.master.data s.value = { s.pics.master with mask := 0xfc } := by
        rw [unmasked, Pic.data_mask hphase]
      have hout : outPort s.pics 0x21 s.value =
          some { s.pics with master := { s.pics.master with mask := 0xfc } } := by
        rw [outPort, hdata]
        rfl
      rw [bootStep, hout] at hs₁
      cases hs₁
      have hsetup : Pic.setup { s.pics.master with mask := 0xfc } =
          { s.pics.master.setup with mask := 0xfc } := rfl
      refine ⟨0xfc, .done keyboard, ⟨?_, hready.slave, hready.slaveIdle⟩, h.timer,
        h.handler.congr rfl, h.asked, h.reads⟩
      rw [hsetup, hready.master]
  | done keyboard =>
      rw [hpoint] at htodo
      cases htodo

/-- An interrupt comes through a gate that is set, and its handler begins. -/
theorem interrupt_step (h : s.Started k mask)
    (hdistinct : k.keyboardHandler ≠ k.timerIntHandler)
    (hstep : s.step k .interrupt = some s') : s'.Started k mask ∧
      (s'.accepted = s.accepted ++ [(0x20, some (timerGate k))] ∨
        s'.accepted = s.accepted ++ [(0x21, some (keyboardGate k))]) := by
  obtain ⟨-, hhandling, v, c, hack, rfl⟩ := interrupt_some hstep
  rw [h.ready.acknowledge h.boot.mask_cases] at hack
  obtain ⟨l, hpending, heq⟩ := Option.map_eq_some_iff.mp hack
  cases heq
  obtain ⟨hrequest, hunmasked, -⟩ := Pic.pending_some hpending
  have hhandler := h.handler
  rw [hhandling] at hhandler
  have hend : (s.pics.master.serve l).endOfInterrupt.Idle := by
    rw [hhandler.idle.serve_end]
    exact hhandler.idle
  have hready : PicsReady mask { s.pics with master := s.pics.master.serve l } := h.ready.congr rfl
  have hasked := h.asked (not_reading hhandling)
  rcases h.ready.unmasked h.boot.mask_cases hunmasked with rfl | ⟨rfl, rfl⟩
  · have hgate : gate k.idt (0x20 + UInt8.ofNat (0 : Fin 8).val).toNat s.mem =
        some (timerGate k) := h.timer
    have hports : handlerPorts k (some (timerGate k)) = [.out 0x20 0x20] := if_pos rfl
    rw [hgate, hports]
    refine ⟨⟨h.boot, hready, h.timer, .timer hend, fun _ => ?_, ?_⟩, Or.inl rfl⟩
    · exact (Pic.serve_of_ne (by decide)).trans hasked
    · rintro ⟨rest, hrest, hmem⟩
      cases hrest
      simp at hmem
  · have hgate : gate k.idt (0x20 + UInt8.ofNat (1 : Fin 8).val).toNat s.mem =
        some (keyboardGate k) := h.boot.keyboard
    have hports : handlerPorts k (some (keyboardGate k)) = [.out 0x20 0x20, .inp 0x60] :=
      (if_neg hdistinct).trans (if_pos rfl)
    rw [hgate, hports]
    refine ⟨⟨h.boot, hready, h.timer, .keyboard hend, fun hnot => ?_, fun _ => ⟨?_, ?_⟩⟩,
      Or.inr rfl⟩
    · exact absurd ⟨_, rfl, by simp⟩ hnot
    · exact hasked.symm.trans hrequest
    · exact Pic.serve_self

/-- A handler ends the interrupt, and that of the keyboard then reads the scancode. -/
theorem port_step (h : s.Started k mask) (hstep : s.step k .port = some s') :
    s'.Started k mask := by
  obtain ⟨a, rest, s₁, hhandling, hs₁, rfl⟩ := port_some hstep
  have hhandler := h.handler
  rw [hhandling] at hhandler
  have hended : (s.pics.master.endOfInterrupt.requested) = s.pics.master.requested :=
    Pic.endOfInterrupt_requested
  cases hhandler with
  | timer idle =>
      cases hs₁
      refine ⟨h.boot, h.ready.congr Pic.endOfInterrupt_setup, h.timer, .last idle, fun _ => ?_,
        ?_⟩
      · refine (congrFun hended 1).trans (h.asked ?_)
        rintro ⟨rest, hrest, hmem⟩
        rw [hhandling] at hrest
        cases hrest
        simp at hmem
      · rintro ⟨rest, hrest, hmem⟩
        cases hrest
        cases hmem
  | keyboard idle =>
      cases hs₁
      have hreads := h.reads ⟨_, hhandling, by simp⟩
      refine ⟨h.boot, h.ready.congr Pic.endOfInterrupt_setup, h.timer, .read idle, fun hnot => ?_,
        fun _ => ⟨hreads.1, (congrFun hended 1).trans hreads.2⟩⟩
      exact absurd ⟨_, rfl, by simp⟩ hnot
  | read idle =>
      obtain ⟨-, hrequested⟩ := h.reads ⟨_, hhandling, by simp⟩
      rw [access, if_pos rfl] at hs₁
      obtain ⟨scancode, -, rfl⟩ := Option.map_eq_some_iff.mp hs₁
      have hnot : ∀ {rest : List PortAccess}, some [] = some rest → .inp 0x60 ∉ rest := by
        rintro rest hrest
        cases hrest
        exact List.not_mem_nil
      cases hqueue : s.queue.head? with
      | none =>
          simp only [IrqState.ready, Option.isSome_none, Bool.false_eq_true, if_false]
          exact ⟨h.boot, h.ready, h.timer, .last idle, fun _ => hrequested,
            fun ⟨rest, hrest, hmem⟩ => absurd hmem (hnot hrest)⟩
      | some next =>
          simp only [IrqState.ready, Option.isSome_some, if_true]
          exact ⟨h.boot, h.ready.congr rfl, h.timer, .last idle, fun _ => Pic.request_self,
            fun ⟨rest, hrest, hmem⟩ => absurd hmem (hnot hrest)⟩

/-- The steps that are neither interrupts nor the boot nor accesses of a handler. -/
theorem step {a : IrqAction} (h : s.Started k mask)
    (hkeyboard : k.keyboardHandler < 0x10000000000000000)
    (hdistinct : k.keyboardHandler ≠ k.timerIntHandler) (hallows : s.Allows k a)
    (hstep : s.step k a = some s') : ∃ mask, s'.Started k mask := by
  cases a with
  | boot => exact h.boot_step hkeyboard hstep
  | interrupt => exact ⟨mask, (h.interrupt_step hdistinct hstep).1⟩
  | port => exact ⟨mask, h.port_step hstep⟩
  | iret flag =>
      obtain ⟨hhandling, heq⟩ := Option.ite_none_right_eq_some.mp hstep
      cases heq
      have hhandler := h.handler
      rw [hhandling] at hhandler
      cases hhandler with
      | last idle =>
          refine ⟨mask, h.boot, h.ready, h.timer, .none idle, fun _ => h.asked ?_,
            fun hreading => absurd hreading (not_reading rfl)⟩
          rintro ⟨rest, hrest, hmem⟩
          rw [hhandling] at hrest
          cases hrest
          cases hmem
  | yield =>
      obtain ⟨⟨hhandling, -⟩, heq⟩ := Option.ite_none_right_eq_some.mp hstep
      have hports : handlerPorts k (gate k.idt 0x20 s.mem) = [.out 0x20 0x20] := by
        rw [h.timer]
        exact if_pos rfl
      rw [hports] at heq
      cases heq
      have hhandler := h.handler
      rw [hhandling] at hhandler
      have hend : s.pics.master.endOfInterrupt.Idle := by
        rw [hhandler.idle.end]
        exact hhandler.idle
      refine ⟨mask, h.boot, h.ready, h.timer, .timer hend,
        fun _ => h.asked (not_reading hhandling), ?_⟩
      rintro ⟨rest, hrest, hmem⟩
      cases hrest
      simp at hmem
  | setFlag flag =>
      obtain ⟨-, heq⟩ := Option.ite_none_right_eq_some.mp hstep
      cases heq
      exact ⟨mask, h.boot, h.ready, h.timer, h.handler, h.asked, h.reads⟩
  | raise line =>
      cases line with
      | master l =>
          obtain ⟨hline, heq⟩ := Option.ite_none_left_eq_some.mp hstep
          cases heq
          have hkept : Function.update s.pics.master.requested l true 1 =
              s.pics.master.requested 1 := Function.update_of_ne (Ne.symm hline) ..
          exact ⟨mask, h.boot, h.ready.congr rfl, h.timer, h.handler.congr rfl,
            fun hnot => hkept.trans (h.asked hnot),
            fun hreading => ⟨(h.reads hreading).1, hkept.trans (h.reads hreading).2⟩⟩
      | slave l =>
          cases hstep
          exact ⟨mask, h.boot, ⟨h.ready.master, h.ready.slave, h.ready.slaveIdle⟩, h.timer,
            h.handler, h.asked, h.reads⟩
  | key scancode =>
      rcases key_some hstep with ⟨hempty, rfl⟩ | ⟨hfull, rfl⟩
      · have hnot : ¬s.Reading := fun hreading => by
          have hsome := (h.reads hreading).1
          rw [hempty] at hsome
          cases hsome
        exact ⟨mask, h.boot, h.ready.congr rfl, h.timer, h.handler.congr rfl,
          fun _ => Pic.request_self, fun hreading => absurd hreading hnot⟩
      · exact ⟨mask, h.boot, h.ready, h.timer, h.handler, h.asked, h.reads⟩
  | other mem =>
      cases hstep
      have hgate : ∀ v < 0x100, gate k.idt v mem = gate k.idt v s.mem := fun v hv =>
        gate_congr fun x hle hlt => hallows x (by omega) (by omega)
      exact ⟨mask, h.boot.congr (hgate 0x21 (by decide)), h.ready,
        (hgate 0x20 (by decide)).trans h.timer, h.handler, h.asked, h.reads⟩

end IrqState.Started

theorem IrqInv.step {a : IrqAction} (h : IrqInv k s)
    (htimer : k.timerIntHandler < 0x10000000000000000)
    (hkeyboard : k.keyboardHandler < 0x10000000000000000)
    (hdistinct : k.keyboardHandler ≠ k.timerIntHandler) (hallows : s.Allows k a)
    (hstep : s.step k a = some s') : IrqInv k s' := by
  obtain ⟨hkeys, haccepted⟩ := h.keys.step hstep
  refine ⟨?_, ?_, hkeys⟩
  · rcases h.phase with ⟨rest, hearly⟩ | ⟨mask, hstarted⟩
    · exact hearly.step htimer hallows hstep
    · exact Or.inr (hstarted.step hkeyboard hdistinct hallows hstep)
  · rcases haccepted with rfl | hsame
    · rcases h.phase with ⟨rest, hearly⟩ | ⟨mask, hstarted⟩
      · have hflag := (IrqState.interrupt_some hstep).1
        rw [hearly.flag] at hflag
        cases hflag
      · intro e he
        rcases (hstarted.interrupt_step hdistinct hstep).2 with hadded | hadded
        · rw [hadded] at he
          rcases List.mem_append.mp he with he | he
          · exact h.gates e he
          · exact Or.inl (List.mem_singleton.mp he)
        · rw [hadded] at he
          rcases List.mem_append.mp he with he | he
          · exact h.gates e he
          · exact Or.inr (List.mem_singleton.mp he)
    · rw [hsame]
      exact h.gates

namespace IrqState.Started

theorem takes {l : Fin 8} (h : s.Started k mask) (hflag : s.flag = true)
    (hhandling : s.handling = none) (hpending : s.pics.master.pending = some l) :
    ∃ s', s.step k .interrupt = some s' ∧ s'.accepted = s.accepted ++
      [((0x20 + UInt8.ofNat l.val).toNat, gate k.idt (0x20 + UInt8.ofNat l.val).toNat s.mem)] := by
  rw [IrqState.step, if_pos ⟨hflag, hhandling⟩, h.ready.acknowledge h.boot.mask_cases, hpending]
  exact ⟨_, rfl, rfl⟩

/-- Nothing delays a tick but a handler that runs. -/
theorem takes_timer (h : s.Started k mask) (hflag : s.flag = true) (hhandling : s.handling = none)
    (hrequest : s.pics.master.requested 0 = true) : ∃ s', s.step k .interrupt = some s' ∧
      s'.accepted = s.accepted ++ [(0x20, some (timerGate k))] := by
  have hhandler := h.handler
  rw [hhandling] at hhandler
  have hmask : s.pics.master.mask = mask := congrArg Pic.mask h.ready.master
  have hunmasked : s.pics.master.masked 0 = false := by
    rw [Pic.masked, hmask]
    rcases h.boot.mask_cases with rfl | rfl
    · decide
    · decide
  obtain ⟨s', hstep, haccepted⟩ := h.takes hflag hhandling
    (hhandler.idle.pending hrequest hunmasked fun l hl => absurd hl (Fin.not_lt_zero l))
  rw [← h.timer]
  exact ⟨s', hstep, haccepted⟩

/-- A scancode waits for nothing but handlers and ticks. -/
theorem takes_keyboard (h : s.Started k mask) (hflag : s.flag = true)
    (hhandling : s.handling = none) (hbooted : s.todo = [])
    (htimer : s.pics.master.requested 0 = false) (hbuffer : s.buffer.isSome = true) :
    ∃ s', s.step k .interrupt = some s' ∧
      s'.accepted = s.accepted ++ [(0x21, some (keyboardGate k))] := by
  have hhandler := h.handler
  rw [hhandling] at hhandler
  have hboot := h.boot
  rw [hbooted] at hboot
  cases hboot with
  | done keyboard =>
      have hmask : s.pics.master.mask = 0xfc := congrArg Pic.mask h.ready.master
      have hunmasked : s.pics.master.masked 1 = false := by
        rw [Pic.masked, hmask]
        decide
      have hrequest := (h.asked (not_reading hhandling)).trans hbuffer
      obtain ⟨s', hstep, haccepted⟩ := h.takes hflag hhandling
        (hhandler.idle.pending hrequest hunmasked fun l hl => Or.inl (by
          rw [show l = 0 by omega]
          exact htimer))
      rw [← keyboard]
      exact ⟨s', hstep, haccepted⟩

/-- A handler never stops at a port. -/
theorem port_some_of (h : s.Started k mask) {a : PortAccess} {rest : List PortAccess}
    (hhandling : s.handling = some (a :: rest)) : ∃ s', s.step k .port = some s' := by
  have hstep : s.step k .port = (s.access a).map fun s => { s with handling := some rest } := by
    simp only [IrqState.step, hhandling]
  have hreads := h.reads
  have hhandler := h.handler
  rw [hhandling] at hhandler
  rw [hstep]
  cases hhandler with
  | timer idle => exact ⟨_, rfl⟩
  | keyboard idle => exact ⟨_, rfl⟩
  | read idle =>
      obtain ⟨scancode, hbuffer⟩ :=
        Option.isSome_iff_exists.mp (hreads ⟨_, hhandling, by simp⟩).1
      rw [access, if_pos rfl, readKey, hbuffer]
      exact ⟨_, rfl⟩

end IrqState.Started

end Steps

/-- Whatever the controllers were before the boot: every interrupt that is accepted comes
through the gate of its handler, in each moment of the boot and behind it; the scancodes
are read in the order of the keys, each once; no handler stops; and a tick is taken as soon
as interrupts are let in, and so is a scancode when no tick waits. -/
theorem irqMachine_delivers {k : KernelSymbols} {s₀ s : IrqState} {run : List IrqAction}
    (placed : k.Placed) (distinct : k.keyboardHandler ≠ k.timerIntHandler)
    (start : IrqStart k s₀) (meets : (irqMachine k).Meets (IrqState.Allows k) s₀ run)
    (reached : (irqMachine k).exec s₀ run = some s) :
    (∀ e ∈ s.accepted, e = (0x20, some (timerGate k)) ∨ e = (0x21, some (keyboardGate k))) ∧
      s.pressed = s.scancodes ++ s.buffer.toList ++ s.queue ∧
      (∀ a rest, s.handling = some (a :: rest) → ∃ s', s.step k .port = some s') ∧
      (s.handling = none → s.flag = true → s.pics.master.requested 0 = true →
        ∃ s', s.step k .interrupt = some s' ∧
          s'.accepted = s.accepted ++ [(0x20, some (timerGate k))]) ∧
      (s.handling = none → s.flag = true → s.todo = [] → s.pics.master.requested 0 = false →
        s.buffer.isSome = true → ∃ s', s.step k .interrupt = some s' ∧
          s'.accepted = s.accepted ++ [(0x21, some (keyboardGate k))]) := by
  have h := (irqMachine k).exec_invariant
    (fun _ _ _ hs hallows hstep => IrqInv.step hs placed.timerIntHandler placed.keyboardHandler
      distinct hallows hstep) start.inv meets reached
  refine ⟨h.gates, h.keys.pressed, fun a rest hhandling => ?_, fun hhandling hflag hrequest => ?_,
    fun hhandling hflag hbooted htimer hbuffer => ?_⟩
  · rcases h.phase with ⟨rest', hearly⟩ | ⟨mask, hstarted⟩
    · rw [hearly.handling] at hhandling
      cases hhandling
    · exact hstarted.port_some_of hhandling
  · rcases h.phase with ⟨rest, hearly⟩ | ⟨mask, hstarted⟩
    · rw [hearly.flag] at hflag
      cases hflag
    · exact hstarted.takes_timer hflag hhandling hrequest
  · rcases h.phase with ⟨rest, hearly⟩ | ⟨mask, hstarted⟩
    · rw [hearly.flag] at hflag
      cases hflag
    · exact hstarted.takes_keyboard hflag hhandling hbooted htimer hbuffer

instance (k : KernelSymbols) (s : IrqState) (a : IrqAction) : Decidable (s.Allows k a) :=
  match a with
  | .key _ => inferInstanceAs (Decidable (BootStep.outb 0x20 0x11 ∉ s.todo))
  | .other mem =>
      decidable_of_iff (∀ i ∈ List.range 0x1000, mem (k.idt + i) = s.mem (k.idt + i))
        ⟨fun h x hle hlt => by
          have hx := h (x - k.idt) (List.mem_range.mpr (by omega))
          rwa [Nat.add_sub_cancel' hle] at hx,
        fun h i hi => by
          have hlt := List.mem_range.mp hi
          exact h _ (by omega) (by omega)⟩
  | .boot | .interrupt | .port | .iret _ | .yield | .setFlag _ | .raise _ => isTrue trivial

/-- Controllers of which nothing is set up, with interrupts that are requested and in service. -/
def unsetPic : Pic where
  phase := .wiring
  single := true
  announced := false
  base := 0x8
  wiring := 0
  mode := 0
  mask := 0
  requested := fun _ => true
  inService := fun _ => true

def beforeBoot : IrqState where
  pics := ⟨unsetPic, unsetPic⟩
  mem := fun _ => 0
  todo := schedInit sampleSymbols ++ .sti :: keyboardProcessInit sampleSymbols
  value := 0
  flag := false
  handling := none
  accepted := []
  buffer := none
  queue := []
  pressed := []
  scancodes := []

/-- Two keys and a tick after the boot, and their handlers. -/
def bootAndType : List IrqAction :=
  List.replicate 28 .boot ++
    [.key 0x1E, .raise (.master 0), .key 0x30, .interrupt, .port, .iret true, .interrupt, .port,
      .port, .iret true]

theorem irqMachine_delivers_bootAndType : ∃ s s',
    (irqMachine sampleSymbols).exec beforeBoot bootAndType = some s ∧ s.scancodes = [0x1E] ∧
      s.step sampleSymbols .interrupt = some s' ∧
      s'.accepted = s.accepted ++ [(0x21, some (keyboardGate sampleSymbols))] := by
  have hrun : ((irqMachine sampleSymbols).exec beforeBoot bootAndType).map
      (fun s => (s.scancodes, s.handling.isNone, s.flag, s.todo.isEmpty,
        s.pics.master.requested 0, s.buffer.isSome)) =
      some ([0x1E], true, true, true, false, true) := by
    decide +kernel
  have hmeets : (irqMachine sampleSymbols).Meets (IrqState.Allows sampleSymbols) beforeBoot
      bootAndType := by
    decide +kernel
  obtain ⟨s, hs, heq⟩ := Option.map_eq_some_iff.mp hrun
  simp only [Prod.mk.injEq] at heq
  obtain ⟨hscancodes, hhandling, hflag, htodo, hrequest, hbuffer⟩ := heq
  obtain ⟨-, -, -, -, hkeyboard⟩ := irqMachine_delivers sampleSymbols_placed (by decide)
    ⟨rfl, rfl, rfl, rfl, rfl, rfl, rfl⟩ hmeets hs
  obtain ⟨s', hstep, haccepted⟩ := hkeyboard (Option.isNone_iff_eq_none.mp hhandling) hflag
    (List.isEmpty_iff.mp htodo) hrequest hbuffer
  exact ⟨s, s', hs, hscancodes, hstep, haccepted⟩

end BayosKernel
