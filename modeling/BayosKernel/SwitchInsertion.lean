import BayosKernel.SwitchSteps

/-!
The steps that start a process: `add_process` and `fork_syscall` give it a `cpu_status`,
and `insert_process` links it to the list, which need not end any more after a fork.
-/

namespace BayosKernel

open Foundation

variable {fuel : Nat} {ringStack : UInt64} {s s' : SwitchState} {t : TimeState Ptr Cpu}
  {p : Ptr} {area : Set Nat}

theorem insertLoop_closed {k : Scheduler} (S : Ptr → Prop)
    (hnext : ∀ p, S p → k.next p = NULL ∨ S (k.next p)) {a last : Ptr} (ha : a = NULL ∨ S a)
    (h : Scheduler.insertLoop fuel k a = some last) : S last := by
  induction fuel generalizing a with
  | zero => cases h
  | succ fuel ih =>
      rw [Scheduler.insertLoop] at h
      by_cases hnull : a = NULL
      · rw [if_pos hnull] at h
        cases h
      · have hmem : S a := ha.resolve_left hnull
        rw [if_neg hnull] at h
        by_cases hmore : k.next a ≠ NULL
        · rw [if_pos hmore] at h
          exact ih (hnext a hmem) h
        · rw [if_neg hmore] at h
          cases h
          exact hmem

/-- The new struct is the last one of the list, and no other field has changed. -/
structure Inserted (k k' : Scheduler) (inserted : List Ptr) (p : Ptr) (proc : Process) : Prop where
  processList : k'.processList = k.processList
  currentProcess : k'.currentProcess = k.currentProcess
  next : ∀ q ∈ inserted, k'.next q = p ∨ k'.next q = k.next q
  next_new : k'.next p = proc.next
  field : ∀ {β : Type} (g : Process → β) (q : Ptr),
    (∀ x n, g { x with next := n } = g x) →
    g (k'.procs q) = if q = p then g proc else g (k.procs q)

theorem SwitchState.insert_inserted {k : Scheduler} {inserted : List Ptr} {proc : Process}
    (hp : p ∉ inserted) (hhead : k.processList = NULL ∨ k.processList ∈ inserted)
    (hnext : ∀ q ∈ inserted, k.next q = NULL ∨ k.next q ∈ inserted) {k' : Scheduler}
    (h : (k.modify p fun _ => proc).insertProcess fuel p = some k') :
    Inserted k k' inserted p proc := by
  obtain ⟨last, hlast, rfl⟩ := Option.map_eq_some_iff.mp h
  have hold : ∀ q ∈ inserted, (k.modify p fun _ => proc).next q = k.next q := by
    intro q hq
    have hne : q ≠ p := fun he => hp (he ▸ hq)
    exact congrArg Process.next (k.modify_procs_ne hne _)
  have hmem : last ∈ inserted := insertLoop_closed (· ∈ inserted)
    (fun q hq => by rw [hold q hq]; exact hnext q hq) hhead hlast
  have hne : p ≠ last := fun he => hp (he ▸ hmem)
  refine ⟨rfl, rfl, fun q hq => ?_, ?_, fun g q hg => ?_⟩
  · rw [Scheduler.setNext_next]
    by_cases hql : q = last
    · subst hql
      exact Or.inl (Function.update_self _ _ _)
    · rw [Function.update_of_ne hql]
      exact Or.inr (hold q hq)
  · rw [Scheduler.setNext_next, Function.update_of_ne hne]
    exact congrArg Process.next (k.modify_procs_self p _)
  · refine (setNext_field _ last p q hg).trans ?_
    by_cases hqp : q = p
    · rw [if_pos hqp, hqp, Scheduler.modify_procs_self]
    · rw [if_neg hqp, Scheduler.modify_procs_ne k hqp]

/-- The process `p` joins with the fields of `proc` and the bytes of `area`, and the memory
becomes `m`. -/
structure SwitchState.Gains (s s' : SwitchState) (p : Ptr) (proc : Process) (m : ByteMemory)
    (area : Set Nat) : Prop where
  kernel : Inserted s.code.kernel s'.code.kernel s.inserted p proc
  cpu : s'.code.cpu = s.code.cpu
  mem : s'.code.mem = m
  inserted : s'.inserted = p :: s.inserted
  areas : s'.areas = Function.update s.areas p area

section Gains

variable {proc : Process} {m : ByteMemory} {q : Ptr}

theorem Kept.gains (h : Kept ringStack s) (hp : p ∉ s.inserted)
    (hs : s.insert fuel p proc m area = some s') : s.Gains s' p proc m area := by
  obtain ⟨k, hk, rfl⟩ := Option.map_eq_some_iff.mp hs
  exact ⟨SwitchState.insert_inserted hp h.head h.next hk, rfl, rfl, rfl, rfl⟩

namespace SwitchState.Gains

theorem current (h : s.Gains s' p proc m area) : s'.current = s.current :=
  h.kernel.currentProcess

theorem new_field {β : Type} (h : s.Gains s' p proc m area) (g : Process → β)
    (hg : ∀ x n, g { x with next := n } = g x) : g (s'.proc p) = g proc :=
  (h.kernel.field g p hg).trans (if_pos rfl)

theorem old_field {β : Type} (h : s.Gains s' p proc m area) (g : Process → β)
    (hg : ∀ x n, g { x with next := n } = g x) (hq : q ≠ p) : g (s'.proc q) = g (s.proc q) :=
  (h.kernel.field g q hg).trans (if_neg hq)

theorem new_area (h : s.Gains s' p proc m area) : s'.areas p = area := by
  rw [h.areas, Function.update_self]

theorem old_area (h : s.Gains s' p proc m area) (hq : q ≠ p) : s'.areas q = s.areas q := by
  rw [h.areas, Function.update_of_ne hq]

theorem mem_old (h : s.Gains s' p proc m area) (hq : q ∈ s.inserted) : q ∈ s'.inserted := by
  rw [h.inserted]
  exact List.mem_cons_of_mem _ hq

theorem mem_cases (h : s.Gains s' p proc m area) (hq : q ∈ s'.inserted) :
    q = p ∨ q ∈ s.inserted := by
  rw [h.inserted] at hq
  exact List.mem_cons.mp hq

theorem live (h : s.Gains s' p proc m area) (hq : s'.Live q) (hqp : q ≠ p) : s.Live q := by
  have hstatus : s'.code.kernel.status q = s.code.kernel.status q :=
    h.old_field Process.status (fun _ _ => rfl) hqp
  refine ⟨(h.mem_cases hq.1).resolve_left hqp,
    hq.2.imp (fun he => he.trans h.current) fun halive => ?_⟩
  rw [← hstatus]
  exact halive

theorem waiting (h : s.Gains s' p proc m area) (hq : s'.Waiting q) (hqp : q ≠ p) :
    s.Waiting q := by
  have hlive := h.live hq.live hqp
  have hne : q ≠ s.current := fun he => hq.2.1 (he.trans h.current.symm)
  exact ⟨hlive.1, hne, hlive.2.resolve_left hne⟩

/-- The list of the processes still stays among the inserted ones. -/
theorem next (h : s.Gains s' p proc m area) (hk : Kept ringStack s)
    (hnext : proc.next = NULL ∨ proc.next ∈ s.inserted) (hq : q ∈ s'.inserted) :
    s'.code.kernel.next q = NULL ∨ s'.code.kernel.next q ∈ s'.inserted := by
  rcases h.mem_cases hq with rfl | hq
  · rw [h.kernel.next_new]
    exact hnext.imp_right h.mem_old
  · rcases h.kernel.next q hq with hlast | hsame
    · rw [hlast, h.inserted]
      exact Or.inr List.mem_cons_self
    · rw [hsame]
      exact (hk.next q hq).imp_right h.mem_old

theorem apart (h : s.Gains s' p proc m area) (hk : Kept ringStack s)
    (hfree : Unclaimed ringStack s area) {r : Ptr} (hq : s'.Live q) (hr : s'.Live r)
    (hne : q ≠ r) : Disjoint (s'.areas q) (s'.areas r) := by
  by_cases hqp : q = p
  · subst hqp
    rw [h.new_area, h.old_area hne.symm]
    exact (hfree.apart r (h.live hr hne.symm)).symm
  · by_cases hrp : r = p
    · subst hrp
      rw [h.new_area, h.old_area hqp]
      exact hfree.apart q (h.live hq hqp)
    · rw [h.old_area hqp, h.old_area hrp]
      exact hk.apart q r (h.live hq hqp) (h.live hr hrp) hne

theorem kept (h : s.Gains s' p proc m area) (hk : Kept ringStack s) (hfresh : FreshStruct s p)
    (hfree : Unclaimed ringStack s area) (hnext : proc.next = NULL ∨ proc.next ∈ s.inserted)
    (hspace : proc.cr3 < 0x10000000000000) : Kept ringStack s' where
  nodup := by
    rw [h.inserted]
    exact List.nodup_cons.mpr ⟨hfresh.fresh, hk.nodup⟩
  current_mem := by
    rw [h.current]
    exact h.mem_old hk.current_mem
  head := by
    rw [h.kernel.processList]
    exact hk.head.imp_right h.mem_old
  next q hq := h.next hk hnext hq
  pointer q hq := by
    rcases h.mem_cases hq with rfl | hq
    · exact ⟨hfresh.low, hfresh.high⟩
    · exact hk.pointer q hq
  space q hq := by
    rcases h.mem_cases hq with rfl | hq
    · rw [h.new_field Process.cr3 fun _ _ => rfl]
      exact hspace
    · rw [h.old_field Process.cr3 (fun _ _ => rfl) fun he => hfresh.fresh (he ▸ hq)]
      exact hk.space q hq
  cr3 := by
    have hcurrent : s.current ≠ p := fun he => hfresh.fresh (he ▸ hk.current_mem)
    rw [h.cpu, h.current, h.old_field Process.cr3 (fun _ _ => rfl) hcurrent]
    exact hk.cr3
  apart q r hq hr hne := h.apart hk hfree hq hr hne
  ring q hq := by
    by_cases hqp : q = p
    · subst hqp
      rw [h.new_area]
      exact hfree.ring
    · rw [h.old_area hqp]
      exact hk.ring q (h.live hq hqp)

/-- A `cpu_status` of an old process, whose bytes the new one does not have. -/
theorem saved_old (h : s.Gains s' p proc m area) (hk : Kept ringStack s)
    (hring : RingStack ringStack) (hfree : Unclaimed ringStack s area)
    (hmem : ∀ x, x ∉ s.areas s.current → x ∉ area → m x = s.code.mem x) {cpu : Cpu}
    (hw : s.Waiting q) (hqp : q ≠ p) (hsaved : Saved ringStack s q cpu) :
    Saved ringStack s' q cpu := by
  refine hsaved.congr (h.old_field Process.context (fun _ _ => rfl) hqp)
    (h.old_field Process.cr3 (fun _ _ => rfl) hqp) (h.old_area hqp) fun x hle hlt => ?_
  rw [h.mem]
  refine hmem x (hsaved.notMem_current hring hk hw hle hlt) fun hx => ?_
  rcases hsaved.within with hon | hin
  · have hend := hsaved.frame_onRing hring hon
    have hxring : x ∈ ringArea ringStack := ⟨by omega, by omega⟩
    exact Set.disjoint_left.mp hfree.ring hx hxring
  · exact Set.disjoint_left.mp (hfree.apart q hw.live) (hin x hle hlt) hx

theorem saved_new (h : s.Gains s' p proc m area) {cpu : Cpu}
    (hcontext : proc.context < 0x10000000000000000)
    (hhalf : InHalf (UInt64.ofNat proc.context) 160)
    (hwords : Words m (place (UInt64.ofNat proc.cr3) (UInt64.ofNat proc.context)) (cpuStatus cpu))
    (hcr3 : cpu.cr3 = UInt64.ofNat proc.cr3)
    (harea : ∀ x, place (UInt64.ofNat proc.cr3) (UInt64.ofNat proc.context) ≤ x →
      x < place (UInt64.ofNat proc.cr3) (UInt64.ofNat proc.context) + 160 → x ∈ area) :
    Saved ringStack s' p cpu := by
  have hnewContext : (s'.proc p).context = proc.context := h.new_field _ fun _ _ => rfl
  have hnewCr3 : (s'.proc p).cr3 = proc.cr3 := h.new_field _ fun _ _ => rfl
  have hframe : s'.frame p = place (UInt64.ofNat proc.cr3) (UInt64.ofNat proc.context) := by
    rw [SwitchState.frame, hnewContext, hnewCr3]
  constructor
  case context_lt =>
    rw [hnewContext]
    exact hcontext
  case half =>
    rw [hnewContext]
    exact hhalf
  case words =>
    rw [hframe, h.mem]
    exact hwords
  case cr3 =>
    rw [hnewCr3]
    exact hcr3
  case within =>
    rw [hframe, h.new_area]
    exact Or.inr harea

end SwitchState.Gains

/-- A process whose registers are in its `cpu_status` is inserted. -/
theorem TimeShared.insert (h : TimeShared ringStack s t) (proc : Process)
    (hring : RingStack ringStack) (hfresh : FreshStruct s p) (hfree : Unclaimed ringStack s area)
    {m : ByteMemory} {cpu : Cpu} (hnext : proc.next = NULL ∨ proc.next ∈ s.inserted)
    (hspace : proc.cr3 < 0x10000000000000) (hcontext : proc.context < 0x10000000000000000)
    (hhalf : InHalf (UInt64.ofNat proc.context) 160)
    (hwords : Words m (place (UInt64.ofNat proc.cr3) (UInt64.ofNat proc.context)) (cpuStatus cpu))
    (hcr3 : cpu.cr3 = UInt64.ofNat proc.cr3)
    (harea : ∀ x, place (UInt64.ofNat proc.cr3) (UInt64.ofNat proc.context) ≤ x →
      x < place (UInt64.ofNat proc.cr3) (UInt64.ofNat proc.context) + 160 → x ∈ area)
    (hmem : ∀ x, x ∉ s.areas s.current → x ∉ area → m x = s.code.mem x)
    (hs : s.insert fuel p proc m area = some s') :
    TimeShared ringStack s' { t with cpu := Function.update t.cpu p cpu } := by
  have hgains := h.gains hfresh.fresh hs
  have hcurrent : s.current ≠ p := fun he => hfresh.fresh (he ▸ h.current_mem)
  refine ⟨hgains.kept h.toKept hfresh hfree hnext hspace, h.current.trans hgains.current.symm, ?_,
    fun q hq => ?_⟩
  · rw [hgains.current, hgains.cpu]
    exact (Function.update_of_ne hcurrent _ _).trans h.cpu
  · by_cases hqp : q = p
    · subst hqp
      simp only [Function.update_self]
      exact hgains.saved_new hcontext hhalf hwords hcr3 harea
    · have hw := hgains.waiting hq hqp
      simp only [Function.update_of_ne hqp]
      exact hgains.saved_old h.toKept hring hfree hmem hw hqp (h.saved q hw)

end Gains

section Frames

variable {m : ByteMemory} {stack : Nat} {func cr3 newCr3 context after : UInt64} {cpu : Cpu}

theorem newStack_outside {x : Nat} (h : x < stack ∨ stack + 0x2000 ≤ x) :
    newStack m stack func x = m x := by
  have hsize : sizeofCpuStatus = 160 := rfl
  refine (storeWords_outside (a := stack + 0x2000 - 160 + 120) ?_).trans ?_
  · simp only [List.length_cons, List.length_nil]
    omega
  · refine (ByteMemory.memset_outside (p := stack + 0x2000 - 160) _ ?_).trans
      (ByteMemory.memset_outside _ h)
    omega

theorem newStack_words : Words (newStack m stack func) (stack + 0x2000 - 160)
    (cpuStatus (newCpu stack func cr3)) := by
  have hsize : sizeofCpuStatus = 160 := rfl
  have hregs : statusRegs.map (newCpu stack func cr3).reg = List.replicate 15 0 := rfl
  refine Words.append_iff.mpr ⟨?_, storeWords_words _ _ _⟩
  rw [hregs]
  refine Words.zeros fun x hle hlt => ?_
  refine (storeWords_outside (a := stack + 0x2000 - 160 + 120) (Or.inl hlt)).trans ?_
  refine ByteMemory.memset_inside (p := stack + 0x2000 - 160) _ ⟨hle, ?_⟩
  omega

theorem TimeShared.addProcess (h : TimeShared ringStack s t) (hring : RingStack ringStack)
    (hfresh : FreshStruct s p) (hfree : Unclaimed ringStack s area) (hlow : 0x800000000000 ≤ stack)
    (hhigh : stack + 0x2000 ≤ 0x10000000000000000)
    (harea : ∀ x, stack ≤ x → x < stack + 0x2000 → x ∈ area)
    (hs : s.insert fuel p (s.addedProcess stack) (newStack s.code.mem stack func) area = some s') :
    TimeShared ringStack s'
      { t with cpu := Function.update t.cpu p (newCpu stack func s.code.cpu.cr3) } := by
  have hcontext : stack + 0x2000 - 160 < 0x10000000000000000 := by omega
  have hvalue : (UInt64.ofNat (stack + 0x2000 - 160)).toNat = stack + 0x2000 - 160 :=
    UInt64.toNat_ofNat_of_lt' hcontext
  have hplace : ∀ space, place space (UInt64.ofNat (stack + 0x2000 - 160)) =
      stack + 0x2000 - 160 := by
    intro space
    rw [place, hvalue, if_neg (by omega)]
  have hcurrent : s.code.cpu.cr3.toNat < 0x10000000000000 := by
    have hspace := h.space _ h.current_mem
    have hsmall : (s.proc s.current).cr3 < UInt64.size := Nat.lt_trans hspace (by decide)
    rw [h.cr3, UInt64.toNat_ofNat_of_lt' hsmall]
    exact hspace
  have hstruct : (s.addedProcess stack).context = stack + 0x2000 - 160 := rfl
  refine h.insert (s.addedProcess stack) hring hfresh hfree (Or.inl rfl) hcurrent ?_ ?_ ?_
    UInt64.ofNat_toNat.symm ?_ (fun x _ hx => newStack_outside ?_) hs
  · rw [hstruct]
    exact hcontext
  · rw [hstruct]
    exact ⟨by omega, Or.inr (by omega)⟩
  · rw [hstruct, hplace]
    exact newStack_words
  · rw [hstruct, hplace]
    exact fun x hle hlt => harea x (by omega) (by omega)
  · by_contra hin
    exact hx (harea x (by omega) (by omega))

theorem forkFrame_pushed (cpu : Cpu) (m : ByteMemory) (newCr3 context after : UInt64)
    (hcontext : context.toNat + 160 < 0x800000000000) :
    Words (forkFrame cpu m context after) (place cpu.cr3 context)
        (cpuStatus (forkedCpu after newCr3 cpu)) ∧
      ∀ x, (x < place cpu.cr3 context ∨ place cpu.cr3 context + 160 ≤ x) →
        forkFrame cpu m context after x = m x := by
  have hsize : (160 : UInt64).toNat = 160 := rfl
  have hend : (context + 160).toNat = context.toNat + 160 := toNat_add_eq (by omega)
  obtain ⟨-, hwords, hout⟩ := pushWords_pushed cpu.cr3
    ([0x10, cpu.rsp, cpu.flags, 0x8, after] ++ statusRegs.reverse.map cpu.reg) m (b := context)
    ⟨by simp only [List.length_append, List.length_cons, List.length_nil, List.length_map,
      List.length_reverse, statusRegs]; omega, Or.inl (by
      simp only [List.length_append, List.length_cons, List.length_nil, List.length_map,
        List.length_reverse, statusRegs]; omega)⟩ hend
  exact ⟨hwords, hout⟩

theorem copyRegion_inside {dst src : UInt64} {va length i : Nat} (hi : i < length) :
    copyRegion m dst src va length (place dst 0 + va + i) = m (place src 0 + va + i) := by
  rw [copyRegion]
  exact ByteMemory.memcpy_inside m (by omega)

theorem copyRegion_outside {dst src : UInt64} {va length x : Nat}
    (h : x < place dst 0 + va ∨ place dst 0 + va + (length + 0xfff) / 0x1000 * 0x1000 ≤ x) :
    copyRegion m dst src va length x = m x :=
  ByteMemory.memcpy_outside m h

/-- The child has a copy of the `cpu_status`. -/
theorem forkedMemory_words (hlow : 0x200000 ≤ context.toNat)
    (hpages : context.toNat + 160 ≤ 0x200000 + (s.proc s.current).elfEnd)
    (hbelow : context.toNat + 160 ≤ 0x800000) :
    Words (s.forkedMemory newCr3 context after) (place newCr3 context)
      (cpuStatus (forkedCpu after newCr3 s.code.cpu)) := by
  have hlower : context.toNat < 0x800000000000 := by omega
  have hframe := (forkFrame_pushed s.code.cpu s.code.mem newCr3 context after (by omega)).1
  refine hframe.copied fun i hi => ?_
  rw [cpuStatus_length] at hi
  refine (copyRegion_outside (Or.inl ?_)).trans ?_
  · rw [place_lower _ hlower]
    omega
  · have hto : place newCr3 context + i =
        place newCr3 0 + 0x200000 + (context.toNat - 0x200000 + i) := by
      rw [place_lower _ hlower]
      omega
    have hfrom : place s.code.cpu.cr3 context + i =
        place s.code.cpu.cr3 0 + 0x200000 + (context.toNat - 0x200000 + i) := by
      rw [place_lower _ hlower]
      omega
    rw [hto, hfrom]
    exact copyRegion_inside (by omega)

theorem TimeShared.fork (h : TimeShared ringStack s t) (hring : RingStack ringStack) {pid : Int}
    {resources : Ptr}
    (horderly : (SwitchAction.fork p newCr3 context after pid resources area).Orderly ringStack s)
    (hs : s.insert fuel p (s.forkedProcess newCr3 context pid resources)
      (s.forkedMemory newCr3 context after) area = some s') :
    TimeShared ringStack s'
      { t with cpu := Function.update t.cpu p (forkedCpu after newCr3 s.code.cpu) } := by
  obtain ⟨hfresh, hfree, hspace, hlow, hpages, hbelow, hframe, harea⟩ := horderly
  have hlower : context.toNat < 0x800000000000 := by omega
  have hcontext : UInt64.ofNat context.toNat = context := UInt64.ofNat_toNat
  have hcr3 : UInt64.ofNat newCr3.toNat = newCr3 := UInt64.ofNat_toNat
  refine h.insert (s.forkedProcess newCr3 context pid resources) hring hfresh hfree
    (h.next _ h.current_mem) hspace context.toNat_lt ?_ ?_ hcr3.symm ?_ (fun x hx hnot => ?_) hs
  · change InHalf (UInt64.ofNat context.toNat) 160
    rw [hcontext]
    exact ⟨by omega, Or.inl (by omega)⟩
  · change Words _ (place (UInt64.ofNat newCr3.toNat) (UInt64.ofNat context.toNat)) _
    rw [hcontext, hcr3]
    exact forkedMemory_words hlow hpages hbelow
  · change ∀ x, place (UInt64.ofNat newCr3.toNat) (UInt64.ofNat context.toNat) ≤ x →
      x < place (UInt64.ofNat newCr3.toNat) (UInt64.ofNat context.toNat) + 160 → x ∈ area
    rw [hcontext, hcr3, place_lower _ hlower]
    exact fun x hle hlt => harea x (by omega) (Or.inl (by omega))
  · have hfirst : x < place newCr3 0 + 0x200000 ∨
        place newCr3 0 + 0x200000 + ((s.proc s.current).elfEnd + 0xfff) / 0x1000 * 0x1000 ≤ x := by
      by_contra hin
      exact hnot (harea x (by omega) (Or.inl (by omega)))
    have hsecond : x < place newCr3 0 + 0x800000 ∨ place newCr3 0 + 0x800000 +
        ((s.proc s.current).anonAllocateEnd + 0xfff) / 0x1000 * 0x1000 ≤ x := by
      by_contra hin
      exact hnot (harea x (by omega) (Or.inr (by omega)))
    refine (copyRegion_outside hsecond).trans ((copyRegion_outside hfirst).trans ?_)
    refine (forkFrame_pushed _ _ newCr3 context after (by omega)).2 x ?_
    by_contra hin
    exact hx (hframe x (by omega) (by omega))

end Frames

end BayosKernel
