import BayosKernel.SwitchInsertion

/-!
Runs of the processes under the interrupt handlers: each process goes on as if it had a
processor of its own, up to the interrupts of ring 3 that meet on `kernel_stack`.
-/

namespace BayosKernel

open Foundation

variable {fuel : Nat} {ringStack : UInt64} {s s' : SwitchState} {t t' : TimeState Ptr Cpu}
  {p : Ptr} {left : HandlerCall → Scratch}

/-- What an action is for processes with processors of their own. -/
def SwitchAction.Is : SwitchAction → TimeAction Ptr Cpu → Prop
  | .exec cpu _, b => ∃ cr3, b = .run { cpu with cr3 := cr3 }
  | .timer _, b => ∃ p, b = .pass p
  | .addProcess p stack func _, b => b = .start p fun cpu => newCpu stack func cpu.cr3
  | .fork p newCr3 _ after _ _ _, b => b = .start p (forkedCpu after newCr3)
  | .claim _, b | .keyboard _ _ _, b | .setStatus _ _, b | .reap _, b => b = .idle

/-- The step neither runs nor starts this process. -/
def SwitchAction.Rests (p : Ptr) (s : SwitchState) : SwitchAction → Prop
  | .exec _ _ => s.current ≠ p
  | .addProcess q _ _ _ | .fork q _ _ _ _ _ _ => q ≠ p
  | _ => True

theorem cpuStatus_injective {cpu cpu' : Cpu} (h : cpuStatus cpu = cpuStatus cpu')
    (hcr3 : cpu.cr3 = cpu'.cr3) : cpu = cpu' := by
  obtain ⟨hregs, hframe⟩ := List.append_inj h (by simp only [List.length_map])
  have hreg : ∀ r ∈ statusRegs, cpu.reg r = cpu'.reg r := List.map_inj_left.mp hregs
  simp only [interruptFrame, List.cons.injEq] at hframe
  obtain ⟨hrip, hcs, hflags, hrsp, hss, -⟩ := hframe
  refine Cpu.ext (funext fun r => hreg r ?_) hrsp hrip hcs hss hflags hcr3
  cases r <;> decide

namespace TimeShared

/-- The processors of processes that do not run again do not matter. -/
theorem agree (h : TimeShared ringStack s t) (hcurrent : t'.current = t.current)
    (hcpu : ∀ p, s.Live p → t'.cpu p = t.cpu p) : TimeShared ringStack s t' where
  toKept := h.toKept
  current := hcurrent.trans h.current
  cpu := (hcpu _ h.current_live).trans h.cpu
  saved p hp := by
    rw [hcpu p hp.live]
    exact h.saved p hp

theorem unique (h : TimeShared ringStack s t) (h' : TimeShared ringStack s t') (hp : s.Live p) :
    t.cpu p = t'.cpu p := by
  by_cases hcurrent : p = s.current
  · rw [hcurrent, h.cpu, h'.cpu]
  · have hw : s.Waiting p := ⟨hp.1, hcurrent, hp.2.resolve_left hcurrent⟩
    have hsaved := h.saved p hw
    have hsaved' := h'.saved p hw
    refine cpuStatus_injective (hsaved.words.unique hsaved'.words ?_)
      (hsaved.cr3.trans hsaved'.cr3.symm)
    rw [cpuStatus_length, cpuStatus_length]

theorem goesOn_current (h : TimeShared ringStack s t) :
    goesOn ringStack s t s.current = t.cpu s.current := by
  rw [goesOn, if_pos (Or.inl rfl), h.cpu, ← h.cr3]

theorem goesOn_live (h : TimeShared ringStack s t)
    (hfree : ∀ p, s.Waiting p → ¬(s.code.cpu.ring ≠ 0 ∧ s.OnRing ringStack p))
    (hp : s.Live p) : goesOn ringStack s t p = t.cpu p := by
  by_cases hcurrent : p = s.current
  · rw [hcurrent]
    exact h.goesOn_current
  · have hw : s.Waiting p := ⟨hp.1, hcurrent, hp.2.resolve_left hcurrent⟩
    rw [goesOn, if_neg (not_or.mpr ⟨hcurrent, hfree p hw⟩)]

/-- One step, as an action of processes with processors of their own. -/
theorem step (h : TimeShared ringStack s t) (hring : RingStack ringStack) {a : SwitchAction}
    (horderly : a.Orderly ringStack s) (hs : (switchMachine fuel ringStack).step s a = some s') :
    ∃ b t', a.Is b ∧ (timeMachine Ptr Cpu).step t b = some t' ∧ TimeShared ringStack s' t' := by
  cases a with
  | exec cpu mem =>
      cases hs
      exact ⟨_, _, ⟨s.code.cpu.cr3, rfl⟩, rfl, h.exec hring horderly⟩
  | claim area =>
      cases hs
      exact ⟨_, _, rfl, rfl, h.claim horderly.1 horderly.2⟩
  | timer left =>
      have hticked := h.timer hring horderly.1 hs
      refine ⟨.pass s'.current, _, ⟨_, rfl⟩, rfl, ?_⟩
      refine hticked.shared.agree rfl fun p hp => (h.goesOn_live ?_ (hticked.live p hp)).symm
      exact fun q hq hover => horderly.2 hover.1 q hq hover.2
  | keyboard left scancode woken =>
      exact ⟨_, _, rfl, rfl, h.keyboard hring horderly.1 horderly.2.1 horderly.2.2 hs⟩
  | addProcess p stack func area =>
      obtain ⟨hfresh, hfree, hlow, hhigh, harea⟩ := horderly
      refine ⟨_, _, rfl, rfl, ?_⟩
      have hshared := h.addProcess hring hfresh hfree hlow hhigh harea hs
      rw [← h.cpu, ← h.current] at hshared
      exact hshared
  | fork p newCr3 context after pid resources area =>
      refine ⟨_, _, rfl, rfl, ?_⟩
      have hshared := h.fork hring horderly hs
      rw [← h.cpu, ← h.current] at hshared
      exact hshared
  | setStatus p status =>
      cases hs
      exact ⟨_, _, rfl, rfl, h.setStatus horderly⟩
  | reap p =>
      obtain ⟨k, hk, rfl⟩ := Option.map_eq_some_iff.mp hs
      obtain ⟨-, hne, hp, l, hl, hall⟩ := horderly
      exact ⟨_, _, rfl, rfl, h.reap hp hne hl hall hk⟩

theorem rests (h : TimeShared ringStack s t) (hring : RingStack ringStack) {a : SwitchAction}
    (horderly : a.Orderly ringStack s) (hrests : a.Rests p s)
    (hs : (switchMachine fuel ringStack).step s a = some s') :
    ∃ t', TimeShared ringStack s' t' ∧ t'.cpu p = t.cpu p := by
  obtain ⟨b, t', hb, ht', hshared⟩ := h.step hring horderly hs
  refine ⟨t', hshared, timeMachine_leavesAlone ht' ?_⟩
  cases a with
  | exec cpu mem =>
      obtain ⟨cr3, rfl⟩ := hb
      exact fun he => hrests (h.current.symm.trans he)
  | timer left =>
      obtain ⟨q, rfl⟩ := hb
      trivial
  | addProcess q stack func area =>
      cases hb
      exact hrests
  | fork q newCr3 context after pid resources area =>
      cases hb
      exact hrests
  | claim _ | keyboard _ _ _ | setStatus _ _ | reap _ =>
      cases hb
      trivial

end TimeShared

theorem switchMachine_simulates {run : List SwitchAction} (ring : RingStack ringStack)
    (init : TimeShared ringStack s t)
    (orderly : (switchMachine fuel ringStack).Meets (fun s a => a.Orderly ringStack s) s run)
    (reached : (switchMachine fuel ringStack).exec s run = some s') :
    ∃ bs t', List.Forall₂ SwitchAction.Is run bs ∧ (timeMachine Ptr Cpu).exec t bs = some t' ∧
      TimeShared ringStack s' t' :=
  (switchMachine fuel ringStack).exec_simulates
    (fun _ _ _ _ h horderly hs => h.step ring horderly hs) init orderly reached

/-- Every run is a run of processes that have a processor each, of which the saved
registers are the state: an interrupt that comes back and a switch change none of them. -/
theorem switchMachine_timeShared (fuel : Nat) (ringStack : UInt64) (s s' : SwitchState)
    (t : TimeState Ptr Cpu) (run : List SwitchAction) (ring : RingStack ringStack)
    (init : TimeShared ringStack s t)
    (orderly : (switchMachine fuel ringStack).Meets
      (fun s a => a.Orderly ringStack s) s run)
    (reached : (switchMachine fuel ringStack).exec s run = some s') :
    ∃ bs t', List.Forall₂ SwitchAction.Is run bs ∧ (timeMachine Ptr Cpu).exec t bs = some t' ∧
      TimeShared ringStack s' t' :=
  switchMachine_simulates ring init orderly reached

/-- A process that is selected again goes on with the registers with which it was
interrupted, whatever the other processes have done. -/
theorem switchMachine_resumes (fuel : Nat) (ringStack : UInt64) (s s' : SwitchState)
    (t : TimeState Ptr Cpu) (run : List SwitchAction) (ring : RingStack ringStack)
    (init : TimeShared ringStack s t)
    (orderly : (switchMachine fuel ringStack).Meets
      (fun s₁ a => a.Orderly ringStack s₁ ∧ a.Rests s.current s₁) s run)
    (reached : (switchMachine fuel ringStack).exec s run = some s')
    (selected : s'.current = s.current) : s'.code.cpu = s.code.cpu := by
  have hkept : ∃ t', TimeShared ringStack s' t' ∧ t'.cpu s.current = s.code.cpu := by
    refine (switchMachine fuel ringStack).exec_invariant
      (I := fun s₁ => ∃ t₁, TimeShared ringStack s₁ t₁ ∧ t₁.cpu s.current = s.code.cpu)
      (fun s₁ a s₂ h hC hs => ?_) ⟨t, init, init.cpu⟩ orderly reached
    obtain ⟨t₁, hshared, hcpu⟩ := h
    obtain ⟨t₂, hnext, hsame⟩ := hshared.rests ring hC.1 hC.2 hs
    exact ⟨t₂, hnext, hsame.trans hcpu⟩
  obtain ⟨t', hshared, hcpu⟩ := hkept
  rw [← hcpu, ← selected, hshared.cpu]

/-- Two kernel threads, of which the second one is new. -/
def twoThreads : SwitchState where
  code :=
    { cpu :=
        { reg := fun _ => 7, rsp := 0xffffffff7fe03000, rip := 0xffffffff80001000, cs := 0x8
          ss := 0x10, flags := 0x202, cr3 := 0x1000 }
      mem := newStack (fun _ => 0) 0xffffffff7fe08000 0xffffffff80002000
      equal := false
      kernel :=
        { procs := fun p =>
            if p = 0xffffffff7fe00100 then
              { Process.zeroed with cr3 := 0x1000, status := .running, next := 0xffffffff7fe00200 }
            else { Process.zeroed with cr3 := 0x1000, context := 0xffffffff7fe09f60 }
          processList := 0xffffffff7fe00100
          currentProcess := 0xffffffff7fe00100 } }
  inserted := [0xffffffff7fe00100, 0xffffffff7fe00200]
  areas p :=
    if p = 0xffffffff7fe00100 then {x | 0xffffffff7fe01000 ≤ x ∧ x < 0xffffffff7fe03000}
    else {x | 0xffffffff7fe08000 ≤ x ∧ x < 0xffffffff7fe0a000}

def twoThreadsCpu : TimeState Ptr Cpu where
  current := 0xffffffff7fe00100
  cpu p :=
    if p = 0xffffffff7fe00100 then twoThreads.code.cpu
    else newCpu 0xffffffff7fe08000 0xffffffff80002000 0x1000

def smallScratch : HandlerCall → Scratch := fun _ => ⟨fun _ => 0, 0x2, fun _ => 0, 0x100⟩

theorem bootRing : RingStack 0xffffffff80011000 := ⟨by decide, by decide⟩

theorem twoThreads_apart {p q : Ptr} (hp : p ∈ twoThreads.inserted) (hq : q ∈ twoThreads.inserted)
    (hne : p ≠ q) : Disjoint (twoThreads.areas p) (twoThreads.areas q) := by
  rw [Set.disjoint_left]
  intro x hx hy
  simp only [twoThreads, List.mem_cons, List.not_mem_nil, or_false] at hp hq
  rcases hp with rfl | rfl <;> rcases hq with rfl | rfl
  · exact hne rfl
  · have h₁ : 0xffffffff7fe01000 ≤ x ∧ x < 0xffffffff7fe03000 := hx
    have h₂ : 0xffffffff7fe08000 ≤ x ∧ x < 0xffffffff7fe0a000 := hy
    omega
  · have h₁ : 0xffffffff7fe08000 ≤ x ∧ x < 0xffffffff7fe0a000 := hx
    have h₂ : 0xffffffff7fe01000 ≤ x ∧ x < 0xffffffff7fe03000 := hy
    omega
  · exact hne rfl

theorem twoThreads_ring {p : Ptr} (hp : p ∈ twoThreads.inserted) :
    Disjoint (twoThreads.areas p) (ringArea 0xffffffff80011000) := by
  rw [Set.disjoint_left]
  intro x hx hy
  have hring : 0xffffffff80010000 ≤ x ∧ x < 0xffffffff80011000 := hy
  simp only [twoThreads, List.mem_cons, List.not_mem_nil, or_false] at hp
  rcases hp with rfl | rfl
  · have harea : 0xffffffff7fe01000 ≤ x ∧ x < 0xffffffff7fe03000 := hx
    omega
  · have harea : 0xffffffff7fe08000 ≤ x ∧ x < 0xffffffff7fe0a000 := hx
    omega

theorem twoThreads_other {p : Ptr} (hp : p ∈ twoThreads.inserted) (hne : p ≠ twoThreads.current) :
    p = 0xffffffff7fe00200 := by
  simp only [twoThreads, List.mem_cons, List.not_mem_nil, or_false] at hp
  exact hp.resolve_left hne

theorem twoThreads_shared : TimeShared 0xffffffff80011000 twoThreads twoThreadsCpu where
  nodup := by decide
  current_mem := by decide
  head := by decide
  next := by decide
  pointer := by decide
  space := by decide
  cr3 := by decide
  apart p q hp hq := twoThreads_apart hp.1 hq.1
  ring p hp := twoThreads_ring hp.1
  current := rfl
  cpu := rfl
  saved p hp := by
    have hother := twoThreads_other hp.1 hp.2.1
    subst hother
    have hframe : twoThreads.frame 0xffffffff7fe00200 = 0xffffffff7fe09f60 := by decide
    refine ⟨by decide, ⟨by decide, by decide⟩, ?_, rfl, Or.inr fun x hle hlt => ?_⟩
    · rw [hframe]
      exact newStack_words
    · rw [hframe] at hle hlt
      have hin : 0xffffffff7fe08000 ≤ x ∧ x < 0xffffffff7fe0a000 := by omega
      exact hin

/-- The second thread is selected, and then the first one again. -/
def threeTurns : List SwitchAction := [.timer smallScratch, .timer smallScratch]

theorem twoThreads_room : Room 0xffffffff80011000 twoThreads smallScratch where
  kernel _ := by
    refine ⟨0xffffffff7fe02f60, 0x100, by decide, ⟨by decide, by decide⟩, fun f => Nat.le_refl _,
      fun x hle hlt => ?_⟩
    have hplace : place twoThreads.code.cpu.cr3 0xffffffff7fe02f60 = 0xffffffff7fe02f60 := by decide
    rw [hplace] at hle hlt
    have hin : 0xffffffff7fe01000 ≤ x ∧ x < 0xffffffff7fe03000 := by omega
    exact hin
  user huser := absurd (by decide) huser

/-- The second thread has begun, and an interrupt finds room on its stack. -/
structure SecondRuns (s : SwitchState) : Prop where
  areas : s.areas = twoThreads.areas
  current : s.current = 0xffffffff7fe00200
  rsp : s.code.cpu.rsp = 0xffffffff7fe09ff0
  cs : s.code.cpu.cs = 0x8
  cr3 : s.code.cpu.cr3 = 0x1000

theorem SecondRuns.room {s : SwitchState} (h : SecondRuns s) :
    s.code.cpu.ring = 0 ∧ Room 0xffffffff80011000 s smallScratch := by
  have hring : s.code.cpu.ring = 0 := by
    rw [Cpu.ring, h.cs]
    decide
  refine ⟨hring, ⟨fun _ => ?_, fun huser => absurd hring huser⟩⟩
  rw [h.rsp, h.cr3, h.areas, h.current]
  refine ⟨0xffffffff7fe09f50, 0x100, by decide, ⟨by decide, by decide⟩, fun f => Nat.le_refl _,
    fun x hle hlt => ?_⟩
  have hplace : place 0x1000 0xffffffff7fe09f50 = 0xffffffff7fe09f50 := by decide
  rw [hplace] at hle hlt
  have hin : 0xffffffff7fe08000 ≤ x ∧ x < 0xffffffff7fe0a000 := by omega
  exact hin

theorem twoThreads_tick {s : SwitchState} (hs : (switchMachine 4 0xffffffff80011000).step
    twoThreads (.timer smallScratch) = some s) : SecondRuns s := by
  have hrun : ((switchMachine 4 0xffffffff80011000).step twoThreads (.timer smallScratch)).map
      (fun s => (s.current, s.code.cpu.rsp, s.code.cpu.cs, s.code.cpu.cr3)) =
      some (0xffffffff7fe00200, 0xffffffff7fe09ff0, 0x8, 0x1000) := by decide +kernel
  rw [hs, Option.map_some] at hrun
  simp only [Option.some.injEq, Prod.mk.injEq] at hrun
  obtain ⟨hcurrent, hrsp, hcs, hcr3⟩ := hrun
  exact ⟨SwitchState.interrupted_areas 4 0xffffffff80011000 smallScratch 0 none timerIntHandler hs,
    hcurrent, hrsp, hcs, hcr3⟩

/-- Every step is taken in ring 0 and has room. -/
theorem threeTurns_meets {C : SwitchState → SwitchAction → Prop}
    (hC : ∀ s, s.code.cpu.ring = 0 → Room 0xffffffff80011000 s smallScratch →
      C s (.timer smallScratch)) :
    (switchMachine 4 0xffffffff80011000).Meets C twoThreads threeTurns := by
  refine ⟨hC _ (by decide) twoThreads_room, fun s hs => ⟨?_, fun _ _ => trivial⟩⟩
  exact hC s (twoThreads_tick hs).room.1 (twoThreads_tick hs).room.2

theorem threeTurns_reached : ∃ s, (switchMachine 4 0xffffffff80011000).exec twoThreads threeTurns =
    some s ∧ s.current = 0xffffffff7fe00100 := by
  have hrun : ((switchMachine 4 0xffffffff80011000).exec twoThreads threeTurns).map
      SwitchState.current = some 0xffffffff7fe00100 := by decide +kernel
  exact Option.map_eq_some_iff.mp hrun

theorem switchMachine_timeShared_threeTurns : ∃ s bs t,
    (switchMachine 4 0xffffffff80011000).exec twoThreads threeTurns = some s ∧
      List.Forall₂ SwitchAction.Is threeTurns bs ∧
      (timeMachine Ptr Cpu).exec twoThreadsCpu bs = some t ∧
      TimeShared 0xffffffff80011000 s t := by
  obtain ⟨s, hs, -⟩ := threeTurns_reached
  obtain ⟨bs, t, hbs, ht, hshared⟩ := switchMachine_timeShared 4 0xffffffff80011000 twoThreads s
    twoThreadsCpu threeTurns bootRing twoThreads_shared
    (threeTurns_meets fun _ hring hroom => ⟨hroom, fun huser => absurd hring huser⟩) hs
  exact ⟨s, bs, t, hs, hbs, ht, hshared⟩

theorem switchMachine_resumes_threeTurns : ∃ s,
    (switchMachine 4 0xffffffff80011000).exec twoThreads threeTurns = some s ∧
      s.code.cpu = twoThreads.code.cpu := by
  obtain ⟨s, hs, hcurrent⟩ := threeTurns_reached
  exact ⟨s, hs, switchMachine_resumes 4 0xffffffff80011000 twoThreads s twoThreadsCpu threeTurns
    bootRing twoThreads_shared
    (threeTurns_meets fun _ hring hroom => ⟨⟨hroom, fun huser => absurd hring huser⟩, trivial⟩)
    hs hcurrent⟩

/-- A tick of the timer keeps the registers of the waiting processes if and only if the
interrupted code runs in ring 0, or no `cpu_status` with other registers is on
`kernel_stack`: such a process goes on with the registers of the interrupted one. -/
theorem switchMachine_timer_shared (fuel : Nat) (ringStack : UInt64) (s s' : SwitchState)
    (t : TimeState Ptr Cpu) (left : HandlerCall → Scratch) (ring : RingStack ringStack)
    (shared : TimeShared ringStack s t) (room : Room ringStack s left)
    (reached : (switchMachine fuel ringStack).step s (.timer left) = some s') :
    TimeShared ringStack s' ⟨s'.current, goesOn ringStack s t⟩ ∧
      (TimeShared ringStack s' ⟨s'.current, t.cpu⟩ ↔
        (s.code.cpu.ring ≠ 0 → ∀ p, s.Waiting p → s.OnRing ringStack p →
          t.cpu p = { s.code.cpu with cr3 := UInt64.ofNat (s.proc p).cr3 })) := by
  have hticked := shared.timer ring room reached
  refine ⟨hticked.shared, fun h huser p hw hon => ?_, fun hsame => ?_⟩
  · have hcpu := hticked.shared.unique h (hticked.waiting p hw)
    change goesOn ringStack s t p = t.cpu p at hcpu
    rw [goesOn, if_pos (Or.inr ⟨huser, hon⟩)] at hcpu
    exact hcpu.symm
  · refine hticked.shared.agree rfl fun p hp => ?_
    by_cases hcurrent : p = s.current
    · rw [hcurrent]
      exact shared.goesOn_current.symm
    · have hlive := hticked.live p hp
      have hw : s.Waiting p := ⟨hlive.1, hcurrent, hlive.2.resolve_left hcurrent⟩
      by_cases hover : s.code.cpu.ring ≠ 0 ∧ s.OnRing ringStack p
      · simp only [goesOn, if_pos (Or.inr hover : p = s.current ∨ _)]
        exact hsame hover.1 p hw hover.2
      · simp only [goesOn, if_neg (not_or.mpr ⟨hcurrent, hover⟩)]

/-- Two processes that were interrupted in ring 3, the one that waits before the other. -/
def twoUsers : SwitchState :=
  { twoThreads with
    code := { twoThreads.code with
      cpu := { twoThreads.code.cpu with cs := 0x33, ss := 0x2b, rsp := 0x3ff000 }
      mem := storeWords (fun _ => 0) 0xffffffff80010f60
        (cpuStatus (newCpu 0xffffffff7fe08000 0x400000 0x1000))
      kernel := { twoThreads.code.kernel with procs := fun p =>
        if p = 0xffffffff7fe00100 then
          { Process.zeroed with cr3 := 0x1000, status := .running, next := 0xffffffff7fe00200 }
        else { Process.zeroed with cr3 := 0x1000, context := 0xffffffff80010f60 } } } }

def twoUsersCpu : TimeState Ptr Cpu where
  current := 0xffffffff7fe00100
  cpu p :=
    if p = 0xffffffff7fe00100 then twoUsers.code.cpu
    else newCpu 0xffffffff7fe08000 0x400000 0x1000

theorem twoUsers_shared : TimeShared 0xffffffff80011000 twoUsers twoUsersCpu where
  nodup := by decide
  current_mem := by decide
  head := by decide
  next := by decide
  pointer := by decide
  space := by decide
  cr3 := by decide
  apart p q hp hq := twoThreads_apart hp.1 hq.1
  ring p hp := twoThreads_ring hp.1
  current := rfl
  cpu := rfl
  saved p hp := by
    have hother := twoThreads_other hp.1 hp.2.1
    subst hother
    have hframe : twoUsers.frame 0xffffffff7fe00200 = 0xffffffff80010f60 := by decide
    refine ⟨by decide, ⟨by decide, by decide⟩, ?_, rfl, Or.inl (by decide)⟩
    rw [hframe]
    exact storeWords_words _ _ _

/-- The second process goes on with the registers of the first one. -/
theorem switchMachine_timer_shared_twoUsers : ∃ s,
    (switchMachine 4 0xffffffff80011000).step twoUsers (.timer smallScratch) = some s ∧
      s.current = 0xffffffff7fe00200 ∧ s.code.cpu = twoUsers.code.cpu ∧
      ¬TimeShared 0xffffffff80011000 s ⟨s.current, twoUsersCpu.cpu⟩ := by
  have hrun : ((switchMachine 4 0xffffffff80011000).step twoUsers (.timer smallScratch)).map
      SwitchState.current = some 0xffffffff7fe00200 := by decide +kernel
  obtain ⟨s, hs, hcurrent⟩ := Option.map_eq_some_iff.mp hrun
  have huser : twoUsers.code.cpu.ring ≠ 0 := by decide
  have hroom : Room 0xffffffff80011000 twoUsers smallScratch :=
    ⟨fun hkernel => absurd hkernel huser, fun _ f => by cases f <;> decide⟩
  obtain ⟨hshared, hexact⟩ := switchMachine_timer_shared 4 0xffffffff80011000 twoUsers s twoUsersCpu
    smallScratch bootRing twoUsers_shared hroom hs
  have hon : twoUsers.OnRing 0xffffffff80011000 0xffffffff7fe00200 := by decide
  refine ⟨s, hs, hcurrent, ?_, fun hkept => ?_⟩
  · have hcpu := hshared.cpu
    rw [hcurrent] at hcpu
    have hgoes : goesOn 0xffffffff80011000 twoUsers twoUsersCpu 0xffffffff7fe00200 =
        { twoUsers.code.cpu with cr3 := 0x1000 } := if_pos (Or.inr ⟨huser, hon⟩)
    exact hcpu.symm.trans hgoes
  · have hsame := hexact.mp hkept huser 0xffffffff7fe00200 ⟨by decide, by decide, by decide⟩ hon
    exact absurd (congrArg Cpu.rip hsame) (by decide)

end BayosKernel
