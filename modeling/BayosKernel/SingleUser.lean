import BayosKernel.SwitchRuns

/-!
A system in which one process leaves ring 0: no two interrupts meet on `kernel_stack`,
and every process keeps its registers without a condition on that stack.
-/

namespace BayosKernel

open Foundation

variable {fuel : Nat} {ringStack : UInt64} {u p : Ptr} {s s' : SwitchState}
  {t t' : TimeState Ptr Cpu}

/-- The conditions of `Orderly` but for the one on `kernel_stack`. -/
def SwitchAction.SingleUser (ringStack : UInt64) (u : Ptr) (s : SwitchState)
    (a : SwitchAction) : Prop :=
  match a with
  | .exec cpu _ => a.Orderly ringStack s ∧ (s.current = u ∨ cpu.ring = 0)
  | .timer left => Room ringStack s left
  | .keyboard left _ woken =>
      Room ringStack s left ∧ ∀ p, woken = some p → s.code.kernel.status p ≠ .dead
  | .claim _ | .addProcess _ _ _ _ | .fork _ _ _ _ _ _ _ | .setStatus _ _ | .reap _ =>
      a.Orderly ringStack s

/-- The other processes run in ring 0, with their `cpu_status` on their own stacks. -/
structure SingleUser (ringStack : UInt64) (u : Ptr) (s : SwitchState) (t : TimeState Ptr Cpu) :
    Prop where
  kernel : ∀ p, s.Live p → p ≠ u → (t.cpu p).ring = 0
  alone : ∀ p, s.Live p → p ≠ u → ¬s.OnRing ringStack p

/-- The new stack has no byte of `kernel_stack`. -/
theorem addProcess_notRing {stack : Nat} {area : Set Nat}
    (harea : ∀ x, stack ≤ x → x < stack + 0x2000 → x ∈ area)
    (hring : Disjoint area (ringArea ringStack)) :
    ringStack.toNat ≠ stack + 0x2000 - 160 + 160 := by
  intro hend
  have hlast : ringStack.toNat - 0x1000 ≤ stack + 0x1fff ∧ stack + 0x1fff < ringStack.toNat := by
    omega
  exact Set.disjoint_left.mp hring (harea (stack + 0x1fff) (by omega) (by omega)) hlast

namespace SingleUser

theorem ringFree (h : SingleUser ringStack u s t) (hshared : TimeShared ringStack s t) :
    RingFree ringStack s := by
  intro huser p hw hon
  have hcurrent : s.current = u := by
    by_contra hne
    have hzero := h.kernel _ hshared.current_live hne
    rw [hshared.cpu] at hzero
    exact huser hzero
  exact h.alone p hw.live (fun he => hw.2.1 (he.trans hcurrent.symm)) hon

theorem orderly (h : SingleUser ringStack u s t) (hshared : TimeShared ringStack s t)
    {a : SwitchAction} (ha : a.SingleUser ringStack u s) : a.Orderly ringStack s := by
  cases a with
  | exec cpu mem => exact ha.1
  | claim _ | addProcess _ _ _ _ | fork _ _ _ _ _ _ _ | setStatus _ _ | reap _ => exact ha
  | timer left => exact ⟨ha, h.ringFree hshared⟩
  | keyboard left scancode woken => exact ⟨ha.1, h.ringFree hshared, ha.2⟩

/-- The pointers to the `cpu_status` are as before, and no dead process comes back. -/
theorem same (h : SingleUser ringStack u s t)
    (hinserted : ∀ p ∈ s'.inserted, p ∈ s.inserted) (hcurrent : s'.current = s.current)
    (hcontext : ∀ p, (s'.proc p).context = (s.proc p).context)
    (hdead : ∀ p, s.code.kernel.status p = .dead → s'.code.kernel.status p = .dead) :
    SingleUser ringStack u s' t := by
  have hlive : ∀ p, s'.Live p → s.Live p := fun p hp =>
    ⟨hinserted p hp.1, hp.2.imp (fun he => he.trans hcurrent) fun hne hd => hne (hdead p hd)⟩
  refine ⟨fun p hp => h.kernel p (hlive p hp), fun p hp hne hon => ?_⟩
  rw [SwitchState.OnRing, hcontext p] at hon
  exact h.alone p (hlive p hp) hne hon

/-- A process that starts in ring 0, with its `cpu_status` on its own stack. -/
theorem insert (h : SingleUser ringStack u s t) (hshared : TimeShared ringStack s t)
    (hfresh : p ∉ s.inserted) {proc : Process} {m : ByteMemory} {area : Set Nat} {cpu : Cpu}
    (hcpu : cpu.ring = 0) (hcontext : ringStack.toNat ≠ proc.context + 160)
    (hs : s.insert fuel p proc m area = some s') :
    SingleUser ringStack u s' { t with cpu := Function.update t.cpu p cpu } := by
  have hgains := hshared.gains hfresh hs
  refine ⟨fun q hq hne => ?_, fun q hq hne hon => ?_⟩
  · by_cases hqp : q = p
    · subst hqp
      simp only [Function.update_self]
      exact hcpu
    · simp only [Function.update_of_ne hqp]
      exact h.kernel q (hgains.live hq hqp) hne
  · by_cases hqp : q = p
    · subst hqp
      rw [SwitchState.OnRing, hgains.new_field Process.context fun _ _ => rfl] at hon
      exact hcontext hon
    · rw [SwitchState.OnRing, hgains.old_field Process.context (fun _ _ => rfl) hqp] at hon
      exact h.alone q (hgains.live hq hqp) hne hon

/-- One step. -/
theorem step (h : SingleUser ringStack u s t) (hshared : TimeShared ringStack s t)
    (hring : RingStack ringStack) {a : SwitchAction} (ha : a.SingleUser ringStack u s)
    (hs : (switchMachine fuel ringStack).step s a = some s') :
    ∃ t', TimeShared ringStack s' t' ∧ SingleUser ringStack u s' t' := by
  have horderly := h.orderly hshared ha
  cases a with
  | exec cpu mem =>
      cases hs
      refine ⟨_, hshared.exec hring horderly, ?_⟩
      refine ⟨fun p hp hne => ?_, fun p hp => h.alone p hp⟩
      by_cases hcurrent : p = t.current
      · subst hcurrent
        simp only [Function.update_self]
        exact ha.2.resolve_left fun he => hne (hshared.current.trans he)
      · simp only [Function.update_of_ne hcurrent]
        exact h.kernel p hp hne
  | claim area =>
      cases hs
      exact ⟨t, hshared.claim horderly.1 horderly.2,
        h.same (fun _ hp => hp) rfl (fun _ => rfl) fun _ hp => hp⟩
  | timer left =>
      have hticked := hshared.timer hring ha hs
      have hgoes : ∀ p, s.Live p → goesOn ringStack s t p = t.cpu p := fun p hp =>
        hshared.goesOn_live
          (fun q hw hover => h.ringFree hshared hover.1 q hw hover.2) hp
      refine ⟨_, hticked.shared, fun p hp hne => ?_, fun p hp hne hon => ?_⟩
      · simp only [hgoes p (hticked.live p hp)]
        exact h.kernel p (hticked.live p hp) hne
      · rcases hticked.onRing p hon with ⟨hcurrent, huser⟩ | ⟨-, hold⟩
        · have hzero := h.kernel p (hticked.live p hp) hne
          rw [hcurrent, hshared.cpu] at hzero
          exact huser hzero
        · exact h.alone p (hticked.live p hp) hne hold
  | keyboard left scancode woken =>
      have hnext := hshared.keyboard hring horderly.1 horderly.2.1 horderly.2.2 hs
      obtain ⟨b, depth, m, -, -, rfl⟩ := horderly.1.keyboard hring hs
      exact ⟨t, hnext, h.same (fun _ hp => hp) (wake_currentProcess _ _)
        (fun p => wake_field s.code.kernel woken p (g := Process.context) fun _ => rfl)
        fun p hp => wake_dead horderly.2.2 hp⟩
  | addProcess q stack func area =>
      obtain ⟨hfresh, hfree, hlow, hhigh, harea⟩ := horderly
      have hkernel : (newCpu stack func s.code.cpu.cr3).ring = 0 := by
        change (0x8 : UInt64) &&& 3 = 0
        decide
      refine ⟨_, hshared.addProcess hring hfresh hfree hlow hhigh harea hs,
        h.insert hshared hfresh.fresh hkernel (fun hend => ?_) hs⟩
      exact addProcess_notRing harea hfree.ring hend
  | fork q newCr3 context after pid resources area =>
      have hkernel : (forkedCpu after newCr3 s.code.cpu).ring = 0 := by
        change (0x8 : UInt64) &&& 3 = 0
        decide
      refine ⟨_, hshared.fork hring horderly hs,
        h.insert hshared horderly.1.fresh hkernel (fun hend => ?_) hs⟩
      have hupper := hring.upper
      have hbelow : context.toNat + 160 ≤ 0x800000 := horderly.2.2.2.2.2.1
      have hend' : ringStack.toNat = context.toNat + 160 := hend
      omega
  | setStatus q status =>
      cases hs
      exact ⟨t, hshared.setStatus horderly, h.same (fun _ hp => hp) rfl
        (fun p => s.code.kernel.modify_field q p (f := fun r => { r with status := status })
          Process.context fun _ => rfl)
        fun p hp => setStatus_dead horderly hp⟩
  | reap q =>
      obtain ⟨k, hk, rfl⟩ := Option.map_eq_some_iff.mp hs
      obtain ⟨-, hne, hp, l, hl, hall⟩ := horderly
      obtain ⟨-, hstatus, hcurrent, -⟩ := hl.removeProcFromList (hall q hp) hk
      exact ⟨t, hshared.reap hp hne hl hall hk,
        h.same (fun _ hp => List.mem_of_mem_erase hp) hcurrent
          (removeProcFromList_field (g := Process.context) (fun _ _ => rfl) hk)
          fun p hp => (congrFun hstatus p).trans hp⟩

end SingleUser

/-- With one process that leaves ring 0, every run is a run of processes that have a
processor each; no other process has its `cpu_status` on `kernel_stack`, where no
interrupt meets one. -/
theorem switchMachine_singleUser (fuel : Nat) (ringStack : UInt64) (u : Ptr) (s s' : SwitchState)
    (t : TimeState Ptr Cpu) (run : List SwitchAction) (ring : RingStack ringStack)
    (init : TimeShared ringStack s t) (single : SingleUser ringStack u s t)
    (steps : (switchMachine fuel ringStack).Meets (fun s a => a.SingleUser ringStack u s) s run)
    (reached : (switchMachine fuel ringStack).exec s run = some s') :
    ∃ bs t', List.Forall₂ SwitchAction.Is run bs ∧ (timeMachine Ptr Cpu).exec t bs = some t' ∧
      TimeShared ringStack s' t' ∧ RingFree ringStack s' ∧
      ∀ p, s'.Live p → p ≠ u → ¬s'.OnRing ringStack p := by
  have hkept : ∀ s₁ a s₂, (∃ t₁, TimeShared ringStack s₁ t₁ ∧ SingleUser ringStack u s₁ t₁) →
      a.SingleUser ringStack u s₁ → (switchMachine fuel ringStack).step s₁ a = some s₂ →
      ∃ t₂, TimeShared ringStack s₂ t₂ ∧ SingleUser ringStack u s₂ t₂ := by
    intro s₁ a s₂ h ha hs
    obtain ⟨t₁, hshared, hsingle⟩ := h
    exact hsingle.step hshared ring ha hs
  have horderly := (switchMachine fuel ringStack).meets_of_invariant
    (D := fun s a => a.Orderly ringStack s) hkept (fun s₁ a h ha => ?_) ⟨t, init, single⟩ steps
  · obtain ⟨bs, t', hbs, ht', hshared⟩ :=
      switchMachine_simulates ring init horderly reached
    obtain ⟨t₁, hshared₁, hsingle₁⟩ :=
      (switchMachine fuel ringStack).exec_invariant hkept ⟨t, init, single⟩ steps reached
    exact ⟨bs, t', hbs, ht', hshared, hsingle₁.ringFree hshared₁, hsingle₁.alone⟩
  · obtain ⟨t₁, hshared, hsingle⟩ := h
    exact hsingle.orderly hshared ha

/-- The first of the two threads in ring 3. -/
def userCpu : Cpu :=
  { twoThreads.code.cpu with cs := 0x33, ss := 0x2b, rip := 0x400000, rsp := 0x3ff000 }

def threadInRing3 : SwitchState :=
  { twoThreads with code := { twoThreads.code with cpu := userCpu } }

/-- The first thread leaves ring 0 and is interrupted there; the second thread has its turn. -/
def userTurns : List SwitchAction :=
  [.exec userCpu twoThreads.code.mem, .timer smallScratch, .timer smallScratch]

theorem threadInRing3_tick {s : SwitchState} (hs : (switchMachine 4 0xffffffff80011000).step
    threadInRing3 (.timer smallScratch) = some s) : SecondRuns s := by
  have hrun : ((switchMachine 4 0xffffffff80011000).step threadInRing3 (.timer smallScratch)).map
      (fun s => (s.current, s.code.cpu.rsp, s.code.cpu.cs, s.code.cpu.cr3)) =
      some (0xffffffff7fe00200, 0xffffffff7fe09ff0, 0x8, 0x1000) := by decide +kernel
  rw [hs, Option.map_some] at hrun
  simp only [Option.some.injEq, Prod.mk.injEq] at hrun
  obtain ⟨hcurrent, hrsp, hcs, hcr3⟩ := hrun
  have hareas : s.areas = threadInRing3.areas :=
    SwitchState.interrupted_areas 4 0xffffffff80011000 smallScratch 0 none timerIntHandler hs
  exact ⟨hareas, hcurrent, hrsp, hcs, hcr3⟩

theorem userTurns_meets : (switchMachine 4 0xffffffff80011000).Meets
    (fun s a => a.SingleUser 0xffffffff80011000 0xffffffff7fe00100 s) twoThreads userTurns := by
  have hexec : (switchMachine 4 0xffffffff80011000).step twoThreads
      (.exec userCpu twoThreads.code.mem) = some threadInRing3 := rfl
  have huser : threadInRing3.code.cpu.ring ≠ 0 := by decide
  rw [userTurns, Machine.meets_cons_iff _ hexec]
  refine ⟨⟨fun _ _ => rfl, Or.inl rfl⟩, ⟨fun hkernel => absurd hkernel huser, fun _ f => ?_⟩,
    fun s hs => ⟨(threadInRing3_tick hs).room.2, fun _ _ => trivial⟩⟩
  cases f <;> decide

theorem switchMachine_singleUser_userTurns : ∃ s bs t,
    (switchMachine 4 0xffffffff80011000).exec twoThreads userTurns = some s ∧
      s.current = 0xffffffff7fe00100 ∧ s.code.cpu.ring ≠ 0 ∧
      (timeMachine Ptr Cpu).exec twoThreadsCpu bs = some t ∧
      TimeShared 0xffffffff80011000 s t ∧ RingFree 0xffffffff80011000 s ∧
      ∀ p, s.Live p → p ≠ 0xffffffff7fe00100 → ¬s.OnRing 0xffffffff80011000 p := by
  have hrun : ((switchMachine 4 0xffffffff80011000).exec twoThreads userTurns).map
      (fun s => (s.current, decide (s.code.cpu.ring ≠ 0))) = some (0xffffffff7fe00100, true) := by
    decide +kernel
  obtain ⟨s, hs, heq⟩ := Option.map_eq_some_iff.mp hrun
  obtain ⟨hcurrent, huser⟩ := Prod.mk.inj heq
  have hsingle : SingleUser 0xffffffff80011000 0xffffffff7fe00100 twoThreads twoThreadsCpu := by
    refine ⟨fun p hp hne => ?_, fun p hp hne => ?_⟩ <;>
      have hother := twoThreads_other hp.1 hne <;> subst hother <;> decide
  obtain ⟨bs, t, -, ht, hshared, hfree, halone⟩ := switchMachine_singleUser 4 0xffffffff80011000
    0xffffffff7fe00100 twoThreads s twoThreadsCpu userTurns bootRing twoThreads_shared hsingle
    userTurns_meets hs
  exact ⟨s, bs, t, hs, hcurrent, of_decide_eq_true huser, ht, hshared, hfree, halone⟩

end BayosKernel
