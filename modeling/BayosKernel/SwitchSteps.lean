import BayosKernel.SwitchInvariant

/-!
What one step does to the registers of the waiting processes, action by action.
-/

namespace BayosKernel

open Foundation

variable {fuel : Nat} {ringStack : UInt64} {s s' : SwitchState} {t : TimeState Ptr Cpu}
  {p q : Ptr} {cpu : Cpu} {left : HandlerCall → Scratch} {scancode : UInt8} {woken : Option Ptr}

theorem cpuStatus_length (cpu : Cpu) : (cpuStatus cpu).length = 20 := rfl

theorem SwitchState.Waiting.live (h : s.Waiting p) : s.Live p := ⟨h.1, Or.inr h.2.2⟩

theorem Kept.current_live (h : Kept ringStack s) : s.Live s.current := ⟨h.current_mem, Or.inl rfl⟩

namespace Saved

theorem congr (h : Saved ringStack s p cpu) (hcontext : (s'.proc p).context = (s.proc p).context)
    (hcr3 : (s'.proc p).cr3 = (s.proc p).cr3) (hareas : s'.areas p = s.areas p)
    (hmem : ∀ x, s.frame p ≤ x → x < s.frame p + 160 → s'.code.mem x = s.code.mem x) :
    Saved ringStack s' p cpu := by
  have hframe : s'.frame p = s.frame p := by
    rw [SwitchState.frame, hcontext, hcr3]
    rfl
  refine ⟨?_, ?_, ?_, ?_, ?_⟩
  · rw [hcontext]
    exact h.context_lt
  · rw [hcontext]
    exact h.half
  · rw [hframe]
    exact h.words.congr hmem
  · rw [hcr3]
    exact h.cr3
  · rw [SwitchState.OnRing, hcontext, hframe, hareas]
    exact h.within

/-- A `cpu_status` on `kernel_stack` takes its last bytes. -/
theorem frame_onRing (h : Saved ringStack s p cpu) (hring : RingStack ringStack)
    (hon : s.OnRing ringStack p) : s.frame p + 160 = ringStack.toNat := by
  have hupper := hring.upper
  have hvalue : (UInt64.ofNat (s.proc p).context).toNat = (s.proc p).context :=
    UInt64.toNat_ofNat_of_lt' h.context_lt
  rw [SwitchState.OnRing] at hon
  rw [SwitchState.frame, place, hvalue, if_neg (by omega)]
  exact hon.symm

/-- The bytes of the current process are none of a `cpu_status`. -/
theorem notMem_current (h : Saved ringStack s p cpu) (hring : RingStack ringStack)
    (hk : Kept ringStack s) (hw : s.Waiting p) {x : Nat} (hle : s.frame p ≤ x)
    (hlt : x < s.frame p + 160) : x ∉ s.areas s.current := by
  rcases h.within with hon | hin
  · have hend := h.frame_onRing hring hon
    have hx : x ∈ ringArea ringStack := ⟨by omega, by omega⟩
    exact fun hmem => Set.disjoint_left.mp (hk.ring _ hk.current_live) hmem hx
  · exact fun hmem =>
      Set.disjoint_left.mp (hk.apart _ _ hw.live hk.current_live hw.2.1) (hin x hle hlt) hmem

end Saved

/-- The same processes, of which another one may run. -/
theorem Kept.reschedule (h : Kept ringStack s) (hinserted : s'.inserted = s.inserted)
    (hareas : s'.areas = s.areas)
    (hlist : s'.code.kernel.processList = s.code.kernel.processList)
    (hnext : ∀ p, s'.code.kernel.next p = s.code.kernel.next p)
    (hcr3 : ∀ p, (s'.proc p).cr3 = (s.proc p).cr3) (hcurrent : s'.current ∈ s.inserted)
    (hspace : s'.code.cpu.cr3 = UInt64.ofNat (s'.proc s'.current).cr3)
    (hlive : ∀ p, s'.Live p → s.Live p) : Kept ringStack s' where
  nodup := by rw [hinserted]; exact h.nodup
  current_mem := by rw [hinserted]; exact hcurrent
  head := by rw [hinserted, hlist]; exact h.head
  next p hp := by
    rw [hinserted] at hp ⊢
    rw [hnext]
    exact h.next p hp
  pointer p hp := h.pointer p (hinserted ▸ hp)
  space p hp := by
    rw [hcr3]
    exact h.space p (hinserted ▸ hp)
  cr3 := hspace
  apart p q hp hq hne := by
    rw [hareas]
    exact h.apart p q (hlive p hp) (hlive q hq) hne
  ring p hp := by
    rw [hareas]
    exact h.ring p (hlive p hp)

/-- The code of a process changes its own registers and bytes. -/
theorem TimeShared.exec (h : TimeShared ringStack s t) (hring : RingStack ringStack) {cpu : Cpu}
    {mem : ByteMemory} (hmem : ∀ x, x ∉ s.areas s.current → mem x = s.code.mem x) :
    TimeShared ringStack
      { s with code := { s.code with cpu := { cpu with cr3 := s.code.cpu.cr3 }, mem := mem } }
      { t with cpu := Function.update t.cpu t.current { cpu with cr3 := s.code.cpu.cr3 } } where
  toKept := h.toKept.reschedule rfl rfl rfl (fun _ => rfl) (fun _ => rfl) h.current_mem h.cr3
    fun _ hp => hp
  current := h.current
  cpu := by
    rw [h.current]
    exact Function.update_self _ _ _
  saved p hp := by
    have hp' : s.Waiting p := hp
    have hsaved := h.saved p hp'
    rw [h.current]
    simp only [Function.update_of_ne hp'.2.1]
    exact hsaved.congr rfl rfl rfl fun x hle hlt =>
      hmem x (hsaved.notMem_current hring h.toKept hp' hle hlt)

theorem TimeShared.claim (h : TimeShared ringStack s t) {area : Set Nat}
    (hapart : ∀ p, s.Live p → p ≠ s.current → Disjoint (s.areas p) area)
    (hring : Disjoint area (ringArea ringStack)) :
    TimeShared ringStack { s with areas := Function.update s.areas s.current area } t where
  nodup := h.nodup
  current_mem := h.current_mem
  head := h.head
  next := h.next
  pointer := h.pointer
  space := h.space
  cr3 := h.cr3
  apart p q hp hq hne := by
    by_cases hpc : p = s.current
    · subst hpc
      simp only [Function.update_self, Function.update_of_ne hne.symm]
      exact (hapart q hq hne.symm).symm
    · by_cases hqc : q = s.current
      · subst hqc
        simp only [Function.update_self, Function.update_of_ne hpc]
        exact hapart p hp hne
      · simp only [Function.update_of_ne hpc, Function.update_of_ne hqc]
        exact h.apart p q hp hq hne
  ring p hp := by
    by_cases hpc : p = s.current
    · subst hpc
      simp only [Function.update_self]
      exact hring
    · simp only [Function.update_of_ne hpc]
      exact h.ring p hp
  current := h.current
  cpu := h.cpu
  saved p hp := by
    have hp' : s.Waiting p := hp
    exact (h.saved p hp').congr rfl rfl (Function.update_of_ne hp'.2.1 _ _) fun _ _ _ => rfl

/-- The scheduler changes other fields, and no dead process comes back. -/
theorem TimeShared.kernel (h : TimeShared ringStack s t) {k : Scheduler}
    (hlist : k.processList = s.code.kernel.processList) (hcurrent : k.currentProcess = s.current)
    (hnext : ∀ p, k.next p = s.code.kernel.next p)
    (hcr3 : ∀ p, (k.procs p).cr3 = (s.proc p).cr3)
    (hcontext : ∀ p, (k.procs p).context = (s.proc p).context)
    (hdead : ∀ p, s.code.kernel.status p = .dead → k.status p = .dead) {mem : ByteMemory}
    {equal : Bool}
    (hmem : ∀ p, s.Waiting p → ∀ x, s.frame p ≤ x → x < s.frame p + 160 → mem x = s.code.mem x) :
    TimeShared ringStack { s with code := ⟨s.code.cpu, mem, equal, k⟩ } t where
  toKept := by
    refine h.toKept.reschedule rfl rfl hlist hnext hcr3 ?_ ?_ fun p hp => ⟨hp.1, ?_⟩
    · change k.currentProcess ∈ s.inserted
      rw [hcurrent]
      exact h.current_mem
    · change s.code.cpu.cr3 = UInt64.ofNat (k.procs k.currentProcess).cr3
      rw [hcr3, hcurrent]
      exact h.cr3
    · exact hp.2.imp (fun he => he.trans hcurrent) fun hne hd => hne (hdead p hd)
  current := h.current.trans hcurrent.symm
  cpu := (congrArg t.cpu hcurrent).trans h.cpu
  saved p hp := by
    have hp' : s.Waiting p :=
      ⟨hp.1, fun he => hp.2.1 (he.trans hcurrent.symm), fun hd => hp.2.2 (hdead p hd)⟩
    exact (h.saved p hp').congr (hcontext p) (hcr3 p) rfl (hmem p hp')

/-- What `schedule` does to the pointers to the `cpu_status`, on a list that need not end. -/
structure ContextSwitched (k k' : Scheduler) (context r : Ptr) : Prop extends
    Scheduler.Switched k k' where
  context_eq : ∀ p, (k'.procs p).context =
    if p = k.currentProcess then context else (k.procs p).context
  returned : r = (k'.procs k'.currentProcess).context
  closed : ∀ S : Ptr → Prop, S k.currentProcess → (k.processList = NULL ∨ S k.processList) →
    (∀ p, S p → k.next p = NULL ∨ S (k.next p)) → S k'.currentProcess

theorem scheduleLoop_closed {k k' : Scheduler} (S : Ptr → Prop)
    (hhead : k.processList = NULL ∨ S k.processList)
    (hnext : ∀ p, S p → k.next p = NULL ∨ S (k.next p)) (hcurrent : S k.currentProcess)
    (h : Scheduler.scheduleLoop fuel k = some k') : S k'.currentProcess := by
  induction fuel generalizing k with
  | zero => cases h
  | succ fuel ih =>
      have hfollowing : k.following k.currentProcess ≠ NULL → S (k.following k.currentProcess) := by
        intro hne
        rw [Scheduler.following] at hne ⊢
        by_cases hlast : k.next k.currentProcess ≠ NULL
        · rw [if_pos hlast]
          exact (hnext _ hcurrent).resolve_left hlast
        · rw [if_neg hlast] at hne ⊢
          exact hhead.resolve_left hne
      rw [Scheduler.scheduleLoop] at h
      by_cases hnull : k.following k.currentProcess = NULL
      · simp only [hnull, if_true] at h
        cases h
      · simp only [if_neg hnull] at h
        by_cases hparked : (k.status (k.following k.currentProcess)).Parked
        · rw [if_pos hparked] at h
          exact ih (k := { k with currentProcess := k.following k.currentProcess }) hhead hnext
            (hfollowing hnull) h
        · rw [if_neg hparked] at h
          cases h
          exact hfollowing hnull

theorem schedule_contextSwitched {k k' : Scheduler} {context r : Ptr}
    (h : k.schedule fuel context = some (k', r)) : ContextSwitched k k' context r := by
  have hswitched := Scheduler.schedule_switched h
  simp only [Scheduler.schedule, Option.map_eq_some_iff, Prod.mk.injEq] at h
  obtain ⟨k₁, hloop, rfl, rfl⟩ := h
  refine ⟨hswitched, fun p => ?_, rfl, fun S hcurrent hhead hnext => ?_⟩
  · obtain ⟨c, -, -, hk, -⟩ := Scheduler.scheduleLoop_spec hloop
    rw [hk]
    have hcontext := Scheduler.modify_field { k.requeue context with currentProcess := c } c p
      (f := fun q => { q with status := .running }) Process.context fun _ => rfl
    refine hcontext.trans ?_
    change ((k.requeue context).procs p).context = _
    by_cases hp : p = k.currentProcess
    · subst hp
      rw [if_pos rfl, Scheduler.requeue, Scheduler.modify_procs_self]
    · rw [if_neg hp, Scheduler.requeue, Scheduler.modify_procs_ne k hp]
  · refine scheduleLoop_closed (k := k.requeue context) S hhead (fun p hp => ?_) hcurrent hloop
    have hsame : (k.requeue context).next p = k.next p :=
      Scheduler.requeue_field k context p Process.next fun _ _ _ => rfl
    rw [hsame]
    exact hnext p hp

/-- The `cpu_status` of an interrupt ends at `b + 160`, and the handler changes nothing
that is not at most `depth` bytes below it. -/
structure InterruptFrame (ringStack : UInt64) (s : SwitchState) (left : HandlerCall → Scratch)
    (b : UInt64) (depth : Nat) : Prop where
  stack : (interruptStack ringStack s.code.cpu).toNat = b.toNat + 160
  half : InHalf b 160
  depth_le : ∀ f, (left f).depth ≤ depth
  mem : ∀ x, place s.code.cpu.cr3 b - depth ≤ x → x < place s.code.cpu.cr3 b + 160 →
    x ∈ s.areas s.current ∨ s.code.cpu.ring ≠ 0 ∧ x ∈ ringArea ringStack
  kernel : s.code.cpu.ring = 0 → ∀ x, place s.code.cpu.cr3 b ≤ x →
    x < place s.code.cpu.cr3 b + 160 → x ∈ s.areas s.current
  user : s.code.cpu.ring ≠ 0 → ringStack.toNat = b.toNat + 160

theorem Room.frame (h : Room ringStack s left) (hring : RingStack ringStack) :
    ∃ b depth, InterruptFrame ringStack s left b depth := by
  by_cases huser : s.code.cpu.ring = 0
  · obtain ⟨b, depth, hstack, hhalf, hdepth, harea⟩ := h.kernel huser
    refine ⟨b, depth, ?_, hhalf, hdepth, fun x hle hlt => Or.inl (harea x hle hlt),
      fun _ x hle hlt => harea x (by omega) hlt, fun hne => absurd huser hne⟩
    rw [interruptStack, if_pos huser]
    exact hstack
  · have hupper := hring.upper
    have hlast := ringStack.toNat_lt
    have hsize : (160 : UInt64).toNat = 160 := rfl
    have hb : (ringStack - 160).toNat + 160 = ringStack.toNat := by
      rw [toNat_sub_eq (by omega)]
      omega
    have hplace : place s.code.cpu.cr3 (ringStack - 160) = (ringStack - 160).toNat := by
      rw [place, if_neg (by omega)]
    have hdepth := h.user huser
    refine ⟨ringStack - 160, 0x1000 - 160, ?_, ⟨by omega, Or.inr (by omega)⟩, fun f => ?_,
      fun x hle hlt => ?_, fun hkernel => absurd hkernel huser, fun _ => hb.symm⟩
    · rw [interruptStack, if_neg huser, hring.aligned]
      exact hb.symm
    · have := hdepth f
      omega
    · rw [hplace] at hle hlt
      have hx : ringStack.toNat - 0x1000 ≤ x ∧ x < ringStack.toNat := by omega
      exact Or.inr ⟨huser, hx⟩

/-- The handler changes no byte of a `cpu_status` but of those on `kernel_stack`. -/
theorem InterruptFrame.apart {b : UInt64} {depth : Nat}
    (h : InterruptFrame ringStack s left b depth) (hring : RingStack ringStack)
    (hk : Kept ringStack s) (hsaved : Saved ringStack s p cpu) (hw : s.Waiting p)
    (hfree : s.code.cpu.ring ≠ 0 → ¬s.OnRing ringStack p) {x : Nat} (hle : s.frame p ≤ x)
    (hlt : x < s.frame p + 160) :
    x < place s.code.cpu.cr3 b - depth ∨ place s.code.cpu.cr3 b + 160 ≤ x := by
  by_contra hin
  rcases h.mem x (by omega) (by omega) with hcurrent | ⟨huser, hx⟩
  · exact hsaved.notMem_current hring hk hw hle hlt hcurrent
  · have harea := (hsaved.within.resolve_left (hfree huser)) x hle hlt
    exact Set.disjoint_left.mp (hk.ring p hw.live) harea hx

/-- The code of ring 0 has its frame among its own bytes. -/
theorem InterruptFrame.notRing {b : UInt64} {depth : Nat}
    (h : InterruptFrame ringStack s left b depth) (hring : RingStack ringStack)
    (hk : Kept ringStack s) (hend : ringStack.toNat = b.toNat + 160) : s.code.cpu.ring ≠ 0 := by
  intro hkernel
  have hupper := hring.upper
  have hplace : place s.code.cpu.cr3 b = b.toNat := by rw [place, if_neg (by omega)]
  have hown := h.kernel hkernel b.toNat (by omega) (by omega)
  have hshared : b.toNat ∈ ringArea ringStack := by
    have hin : ringStack.toNat - 0x1000 ≤ b.toNat ∧ b.toNat < ringStack.toNat := by omega
    exact hin
  exact Set.disjoint_left.mp (hk.ring _ hk.current_live) hown hshared

/-- The registers with which a process goes on after an interrupt. -/
def goesOn (ringStack : UInt64) (s : SwitchState) (t : TimeState Ptr Cpu) (p : Ptr) : Cpu :=
  if p = s.current ∨ s.code.cpu.ring ≠ 0 ∧ s.OnRing ringStack p then
    { s.code.cpu with cr3 := UInt64.ofNat (s.proc p).cr3 }
  else t.cpu p

/-- The interrupted process is saved, and the others still are but for those on
`kernel_stack`. -/
theorem Saved.interrupt {b : UInt64} {depth : Nat} {k : Scheduler} {context : Ptr}
    {m : ByteMemory} (h : TimeShared ringStack s t) (hring : RingStack ringStack)
    (hframe : InterruptFrame ringStack s left b depth)
    (hswitched : ContextSwitched s.code.kernel k b.toNat context)
    (hwords : Words m (place s.code.cpu.cr3 b) (cpuStatus s.code.cpu))
    (hout : ∀ x, (x < place s.code.cpu.cr3 b - depth ∨ place s.code.cpu.cr3 b + 160 ≤ x) →
      m x = s.code.mem x) {cpu : Cpu} {equal : Bool} (hp : s.Live p) :
    Saved ringStack { s with code := ⟨cpu, m, equal, k⟩ } p (goesOn ringStack s t p) := by
  have hcr3 : (k.procs p).cr3 = (s.proc p).cr3 := hswitched.field Process.cr3 p fun _ _ _ => rfl
  have hcontext := hswitched.context_eq p
  have hb : UInt64.ofNat b.toNat = b := UInt64.ofNat_toNat
  by_cases hcurrent : p = s.current
  · subst hcurrent
    have hvalue : (k.procs s.current).context = b.toNat := hcontext.trans (if_pos rfl)
    have hplace : SwitchState.frame { s with code := ⟨cpu, m, equal, k⟩ } s.current =
        place s.code.cpu.cr3 b := by
      rw [SwitchState.frame]
      simp only [SwitchState.proc, hvalue, hcr3, hb, h.cr3]
    rw [goesOn, if_pos (Or.inl rfl)]
    refine ⟨?_, ?_, ?_, ?_, ?_⟩
    · simp only [SwitchState.proc, hvalue]
      exact b.toNat_lt
    · simp only [SwitchState.proc, hvalue, hb]
      exact hframe.half
    · rw [hplace]
      exact hwords
    · simp only [SwitchState.proc, hcr3]
    · by_cases huser : s.code.cpu.ring = 0
      · refine Or.inr fun x hle hlt => ?_
        rw [hplace] at hle hlt
        exact hframe.kernel huser x hle hlt
      · left
        have hend := hframe.user huser
        simp only [SwitchState.OnRing, SwitchState.proc, hvalue]
        exact hend
  · have hw : s.Waiting p := ⟨hp.1, hcurrent, hp.2.resolve_left hcurrent⟩
    have hsaved := h.saved p hw
    have hsame : (k.procs p).context = (s.proc p).context := hcontext.trans (if_neg hcurrent)
    by_cases hover : s.code.cpu.ring ≠ 0 ∧ s.OnRing ringStack p
    · rw [goesOn, if_pos (Or.inr hover)]
      have hend := hsaved.frame_onRing hring hover.2
      have hb' := hframe.user hover.1
      have hupper := hring.upper
      have hplace : place s.code.cpu.cr3 b = s.frame p := by
        rw [place, if_neg (by omega)]
        omega
      refine ⟨?_, ?_, ?_, ?_, Or.inl ?_⟩
      · simp only [SwitchState.proc, hsame]
        exact hsaved.context_lt
      · simp only [SwitchState.proc, hsame]
        exact hsaved.half
      · have hsameFrame : SwitchState.frame { s with code := ⟨cpu, m, equal, k⟩ } p =
            s.frame p := by
          rw [SwitchState.frame, SwitchState.frame]
          simp only [SwitchState.proc, hsame, hcr3]
        rw [hsameFrame, ← hplace]
        exact hwords
      · simp only [SwitchState.proc, hcr3]
      · have hon := hover.2
        simp only [SwitchState.OnRing, SwitchState.proc, hsame] at hon ⊢
        exact hon
    · rw [goesOn, if_neg (not_or.mpr ⟨hcurrent, hover⟩)]
      refine hsaved.congr hsame hcr3 rfl fun x hle hlt => hout x ?_
      exact hframe.apart hring h.toKept hsaved hw (fun huser hon => hover ⟨huser, hon⟩) hle hlt

/-- A handler that has come back has called `schedule`. -/
theorem timerIntHandler_schedules {st st' : CodeState Scheduler} {b : UInt64}
    (hhalf : InHalf b 160) (hstack : (interruptStack ringStack st.cpu).toNat = b.toNat + 160)
    (h : runCode (handlerEnv fuel left scancode woken) timerIntHandler 0
      (st.interrupt ringStack kernelCs) = some st') :
    ∃ k context, st.kernel.schedule fuel b.toNat = some (k, context) := by
  obtain ⟨m, hsave, -, -⟩ := saveCode_saves (handlerEnv fuel left scancode woken)
    (switchCode ++ restoreCode) hhalf hstack
  cases hschedule : st.kernel.schedule fuel b.toNat with
  | some r => exact ⟨r.1, r.2, rfl⟩
  | none =>
      have hcall : (handlerEnv fuel left scancode woken).call .schedule
          (((st.interrupt ringStack kernelCs).withStack b m).set .rdi b) = none := by
        have hrdi : (((st.interrupt ringStack kernelCs).withStack b m).set .rdi b).cpu.reg .rdi =
            b := CodeState.set_reg_self _ _ _
        change ((st.kernel.schedule fuel _).map _) = none
        rw [hrdi, hschedule]
        rfl
      rw [timerIntHandler, hsave] at h
      change ((handlerEnv fuel left scancode woken).call .schedule
        (((st.interrupt ringStack kernelCs).withStack b m).set .rdi b)).bind _ = _ at h
      rw [hcall] at h
      cases h

theorem SwitchState.interrupted_areas (fuel : Nat) (ringStack : UInt64)
    (left : HandlerCall → Scratch) (scancode : UInt8) (woken : Option Ptr)
    (handler : List (Instr HandlerCall))
    (h : s.interrupted fuel ringStack left scancode woken handler = some s') :
    s'.areas = s.areas := by
  obtain ⟨code, -, rfl⟩ := Option.map_eq_some_iff.mp h
  rfl

/-- What a tick of the timer does to the processes. -/
structure Ticked (ringStack : UInt64) (s s' : SwitchState) (t : TimeState Ptr Cpu) : Prop where
  shared : TimeShared ringStack s' ⟨s'.current, goesOn ringStack s t⟩
  live : ∀ p, s'.Live p → s.Live p
  waiting : ∀ p, s.Waiting p → s'.Live p
  onRing : ∀ p, s'.OnRing ringStack p →
    p = s.current ∧ s.code.cpu.ring ≠ 0 ∨ p ≠ s.current ∧ s.OnRing ringStack p

/-- A tick of the timer: every process but those with a `cpu_status` on `kernel_stack`
keeps its registers, and those go on with the ones of the interrupted process. -/
theorem TimeShared.timer (h : TimeShared ringStack s t) (hring : RingStack ringStack)
    (hroom : Room ringStack s left)
    (hs : s.interrupted fuel ringStack left 0 none timerIntHandler = some s') :
    Ticked ringStack s s' t := by
  obtain ⟨code, hcode, rfl⟩ := Option.map_eq_some_iff.mp hs
  obtain ⟨b, depth, hframe⟩ := hroom.frame hring
  obtain ⟨k, context, hschedule⟩ := timerIntHandler_schedules hframe.half hframe.stack hcode
  have hswitched := schedule_contextSwitched hschedule
  have hselected : k.currentProcess ∈ s.inserted :=
    hswitched.closed (· ∈ s.inserted) h.current_mem h.head h.next
  have hlive : s.Live k.currentProcess := by
    refine ⟨hselected, Or.inr fun hdead => hswitched.current_free (Or.inl hdead)⟩
  have hne : UInt64.ofNat k.currentProcess ≠ s.code.cpu.cr3 := by
    intro he
    have hpointer := h.pointer _ hselected
    have hspace := h.space _ h.current_mem
    have hsmall : (s.proc s.current).cr3 < UInt64.size := Nat.lt_trans hspace (by decide)
    have hvalue := congrArg UInt64.toNat he
    rw [h.cr3, UInt64.toNat_ofNat_of_lt' hpointer.2, UInt64.toNat_ofNat_of_lt' hsmall] at hvalue
    exact absurd (hvalue ▸ hpointer.1) (Nat.not_le.mpr hspace)
  obtain ⟨m, hwords, hout, hrun⟩ := timerIntHandler_switches (s := left) 0 none
    hframe.half hframe.stack hframe.depth_le hschedule hne
  have hsaved : ∀ (cpu : Cpu) (equal : Bool) p, s.Live p →
      Saved ringStack { s with code := ⟨cpu, m, equal, k⟩ } p (goesOn ringStack s t p) :=
    fun cpu equal p hp => Saved.interrupt h hring hframe hswitched hwords hout hp
  have hnew := hsaved s.code.cpu false _ hlive
  obtain ⟨equal, hend⟩ := hrun (goesOn ringStack s t k.currentProcess)
    (by rw [hswitched.returned]; exact hnew.half)
    (by rw [hswitched.returned]; exact hnew.words)
  have hsame : code = ⟨goesOn ringStack s t k.currentProcess, m, equal, k⟩ := by
    rw [hcode] at hend
    rw [Option.some.inj hend]
    congr 1
    have hspace := hnew.cr3
    exact Cpu.ext rfl rfl rfl rfl rfl rfl hspace.symm
  subst hsame
  have hstill : ∀ p, SwitchState.Live { s with code :=
      ⟨goesOn ringStack s t k.currentProcess, m, equal, k⟩ } p → s.Live p := by
    intro p hp
    refine ⟨hp.1, ?_⟩
    rcases hp.2 with hcurrent | halive
    · have hcurrent' : p = k.currentProcess := hcurrent
      rw [hcurrent']
      exact hlive.2
    · exact Or.inr fun hdead => halive ((hswitched.parked_eq p (Or.inl hdead)).trans hdead)
  refine ⟨⟨?_, rfl, rfl, fun p hp => hsaved _ _ p (hstill p hp.live)⟩, hstill, fun p hp => ?_,
    fun p hon => ?_⟩
  · exact h.toKept.reschedule rfl rfl hswitched.processList hswitched.toSwitched.next_eq
      (fun p => hswitched.field Process.cr3 p fun _ _ _ => rfl) hselected hnew.cr3 hstill
  · refine ⟨hp.1, Or.inr fun hdead => hp.2.2 ?_⟩
    have hparked := (hswitched.parked_iff p).mp (Or.inl hdead)
    exact (hswitched.parked_eq p hparked).symm.trans hdead
  · have hcontext := hswitched.context_eq p
    have hon' : ringStack.toNat = (k.procs p).context + 160 := hon
    by_cases hcurrent : p = s.current
    · rw [hcontext.trans (if_pos hcurrent)] at hon'
      exact Or.inl ⟨hcurrent, hframe.notRing hring h.toKept hon'⟩
    · rw [hcontext.trans (if_neg hcurrent)] at hon'
      exact Or.inr ⟨hcurrent, hon'⟩

theorem wake_field {β : Type} (k : Scheduler) (woken : Option Ptr) (p : Ptr) {g : Process → β}
    (hg : ∀ x, g { x with waitNext := NULL, status := .ready } = g x) :
    g ((wake k woken).procs p) = g (k.procs p) := by
  cases woken with
  | none => rfl
  | some w => exact k.modify_field w p g hg

theorem wake_dead {k : Scheduler} {woken : Option Ptr}
    (hwoken : ∀ p, woken = some p → k.status p ≠ .dead) (h : k.status p = .dead) :
    (wake k woken).status p = .dead := by
  cases woken with
  | none => exact h
  | some w =>
      have hne : p ≠ w := fun he => hwoken w rfl (he ▸ h)
      rw [wake, Scheduler.status, Scheduler.modify_procs_ne k hne]
      exact h

theorem Room.keyboard (hroom : Room ringStack s left) (hring : RingStack ringStack)
    (hs : s.interrupted fuel ringStack left scancode woken keyboardHandlerEntry = some s') :
    ∃ b depth m, InterruptFrame ringStack s left b depth ∧
      (∀ x, (x < place s.code.cpu.cr3 b - depth ∨ place s.code.cpu.cr3 b + 160 ≤ x) →
        m x = s.code.mem x) ∧
      s' = { s with code := ⟨s.code.cpu, m, s.code.equal, wake s.code.kernel woken⟩ } := by
  obtain ⟨code, hcode, rfl⟩ := Option.map_eq_some_iff.mp hs
  obtain ⟨b, depth, hframe⟩ := hroom.frame hring
  obtain ⟨m, hout, hrun⟩ := keyboardHandlerEntry_returns fuel scancode woken
    hframe.half hframe.stack hframe.depth_le
  rw [hcode] at hrun
  exact ⟨b, depth, m, hframe, hout, by rw [Option.some.inj hrun]⟩

theorem wake_currentProcess (k : Scheduler) (woken : Option Ptr) :
    (wake k woken).currentProcess = k.currentProcess := by
  cases woken <;> rfl

/-- An interrupt of the keyboard, which goes back to the interrupted process. -/
theorem TimeShared.keyboard (h : TimeShared ringStack s t) (hring : RingStack ringStack)
    (hroom : Room ringStack s left) (hfree : RingFree ringStack s)
    (hwoken : ∀ p, woken = some p → s.code.kernel.status p ≠ .dead)
    (hs : s.interrupted fuel ringStack left scancode woken keyboardHandlerEntry = some s') :
    TimeShared ringStack s' t := by
  obtain ⟨b, depth, m, hframe, hout, rfl⟩ := hroom.keyboard hring hs
  refine h.kernel ?_ (wake_currentProcess _ _) (fun p => ?_) (fun p => ?_) (fun p => ?_) (fun p => wake_dead hwoken)
    fun p hw x hle hlt => hout x ?_
  · cases woken <;> rfl
  · exact wake_field s.code.kernel woken p (g := Process.next) fun _ => rfl
  · exact wake_field s.code.kernel woken p (g := Process.cr3) fun _ => rfl
  · exact wake_field s.code.kernel woken p (g := Process.context) fun _ => rfl
  · exact hframe.apart hring h.toKept (h.saved p hw) hw (fun huser => hfree huser p hw) hle hlt

theorem setStatus_dead {k : Scheduler} {status : ProcessStatus}
    (hdead : k.status p = .dead → status = .dead) (h : k.status q = .dead) :
    (k.setStatus p status).status q = .dead := by
  rw [Scheduler.setStatus, Scheduler.status]
  by_cases hqp : q = p
  · subst hqp
    rw [Scheduler.modify_procs_self]
    exact hdead h
  · rw [Scheduler.modify_procs_ne _ hqp]
    exact h

theorem TimeShared.setStatus (h : TimeShared ringStack s t) {status : ProcessStatus}
    (hdead : s.code.kernel.status p = .dead → status = .dead) :
    TimeShared ringStack
      { s with code := { s.code with kernel := s.code.kernel.setStatus p status } } t := by
  refine h.kernel (k := s.code.kernel.setStatus p status) rfl rfl (fun q => ?_) (fun q => ?_)
    (fun q => ?_) (fun q hq => setStatus_dead hdead hq) fun _ _ _ _ _ => rfl
  · exact s.code.kernel.modify_field p q Process.next fun _ => rfl
  · exact s.code.kernel.modify_field p q Process.cr3 fun _ => rfl
  · exact s.code.kernel.modify_field p q Process.context fun _ => rfl

theorem setNext_field {β : Type} (k : Scheduler) (p v q : Ptr) {g : Process → β}
    (hg : ∀ x n, g { x with next := n } = g x) : g ((k.setNext p v).procs q) = g (k.procs q) :=
  k.modify_field p q g fun x => hg x v

theorem removeLoop_field {β : Type} {k k' : Scheduler} {g : Process → β}
    (hg : ∀ x n, g { x with next := n } = g x) {current : Ptr}
    (h : Scheduler.removeLoop fuel k p current = some k') (q : Ptr) :
    g (k'.procs q) = g (k.procs q) := by
  induction fuel generalizing current with
  | zero => cases h
  | succ fuel ih =>
      rw [Scheduler.removeLoop] at h
      split at h
      · split at h
        · cases h
          exact (setNext_field _ p NULL q hg).trans (setNext_field _ current _ q hg)
        · exact ih h
      · cases h
        rfl

theorem removeProcFromList_field {β : Type} {k k' : Scheduler} {g : Process → β}
    (hg : ∀ x n, g { x with next := n } = g x) (h : k.removeProcFromList fuel p = some k')
    (q : Ptr) : g (k'.procs q) = g (k.procs q) := by
  rw [Scheduler.removeProcFromList] at h
  split at h
  · cases h
    rfl
  · split at h
    · cases h
      exact setNext_field { k with processList := k.next k.processList } p NULL q hg
    · exact removeLoop_field hg h q

/-- The list stays among the inserted processes. -/
theorem Kept.listed_subset (h : Kept ringStack s) {l : List Ptr} (hl : s.code.kernel.Listed l) :
    ∀ q ∈ l, q ∈ s.inserted := by
  have hchain : ∀ (l : List Ptr) (a : Ptr), (a = NULL ∨ a ∈ s.inserted) →
      Chain s.code.kernel.next NULL a l → ∀ q ∈ l, q ∈ s.inserted := by
    intro l
    induction l with
    | nil =>
        intro a _ _ q hq
        cases hq
    | cons x l ih =>
        intro a ha hc q hq
        obtain ⟨rfl, hne, hrest⟩ := hc
        have hmem : a ∈ s.inserted := ha.resolve_left hne
        cases hq with
        | head => exact hmem
        | tail _ hq => exact ih _ (h.next a hmem) hrest q hq
  exact hchain l _ h.head hl

/-- `remove_proc_from_list` of a process of a list that ends. -/
theorem TimeShared.reap (h : TimeShared ringStack s t) {k : Scheduler} {l : List Ptr}
    (hp : p ∈ s.inserted) (hne : p ≠ s.current) (hl : s.code.kernel.Listed l)
    (hall : ∀ q ∈ s.inserted, q ∈ l) (hk : s.code.kernel.removeProcFromList fuel p = some k) :
    TimeShared ringStack
      { s with code := { s.code with kernel := k }, inserted := s.inserted.erase p } t := by
  have hsubset := h.toKept.listed_subset hl
  obtain ⟨hlisted, hstatus, hcurrent, -⟩ := hl.removeProcFromList (hall p hp) hk
  have hcr3 : ∀ q, (k.procs q).cr3 = (s.proc q).cr3 :=
    removeProcFromList_field (g := Process.cr3) (fun _ _ => rfl) hk
  have hcontext : ∀ q, (k.procs q).context = (s.proc q).context :=
    removeProcFromList_field (g := Process.context) (fun _ _ => rfl) hk
  have herase : ∀ {q}, q ∈ s.inserted.erase p ↔ q ≠ p ∧ q ∈ s.inserted :=
    h.nodup.mem_erase_iff
  have hback : ∀ {q}, q ∈ l.erase p → q ∈ s.inserted.erase p := fun hq =>
    herase.mpr ⟨(hl.nodup.mem_erase_iff.mp hq).1, hsubset _ (List.mem_of_mem_erase hq)⟩
  have hstill : ∀ q, SwitchState.Live { s with
      code := { s.code with kernel := k }, inserted := s.inserted.erase p } q → s.Live q := by
    intro q hq
    refine ⟨(herase.mp hq.1).2, hq.2.imp (fun he => he.trans hcurrent) fun halive => ?_⟩
    simp only [hstatus] at halive
    exact halive
  refine ⟨⟨h.nodup.erase p, herase.mpr ⟨?_, ?_⟩, ?_, fun q hq => ?_, fun q hq => ?_,
    fun q hq => ?_, ?_, fun q r hq hr => ?_, fun q hq => ?_⟩, ?_, ?_, fun q hq => ?_⟩
  · exact fun he => hne (he.symm.trans hcurrent)
  · change k.currentProcess ∈ s.inserted
    rw [hcurrent]
    exact h.current_mem
  · by_cases hnull : k.processList = NULL
    · exact Or.inl hnull
    · exact Or.inr (hback (hlisted.head_mem hnull))
  · have hmem : q ∈ l.erase p := hl.nodup.mem_erase_iff.mpr
      ⟨(herase.mp hq).1, hall q (herase.mp hq).2⟩
    by_cases hnull : k.next q = NULL
    · exact Or.inl hnull
    · exact Or.inr (hback (hlisted.next_mem hmem hnull))
  · exact h.pointer q (herase.mp hq).2
  · have hsame := hcr3 q
    exact hsame ▸ h.space q (herase.mp hq).2
  · change s.code.cpu.cr3 = UInt64.ofNat (k.procs k.currentProcess).cr3
    rw [hcr3, hcurrent]
    exact h.cr3
  · exact h.apart q r (hstill q hq) (hstill r hr)
  · exact h.ring q (hstill q hq)
  · exact h.current.trans hcurrent.symm
  · exact (congrArg t.cpu hcurrent).trans h.cpu
  · have hq' : s.Waiting q := by
      have hlive := hstill q hq.live
      have hother : q ≠ s.current := fun he => hq.2.1 (he.trans hcurrent.symm)
      exact ⟨hlive.1, hother, hlive.2.resolve_left hother⟩
    exact (h.saved q hq').congr (hcontext q) (hcr3 q) rfl fun _ _ _ => rfl

end BayosKernel
