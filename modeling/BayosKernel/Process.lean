import BayosKernel.Foundation.PointerChain

/-!
The process struct, the two globals of the scheduler and `schedule`.

Process structs are kept by their address. The loop of `schedule` has no bound
in the source; here it runs on fuel, and `none` stands for a loop that has not
ended or for a store through NULL.
-/

namespace BayosKernel

open Foundation

/-- Pointers are addresses. -/
abbrev Ptr := Nat

abbrev NULL : Ptr := 0

/-- The heap `g_al`, in which process structs are allocated. -/
def kernelHeap : Ptr := 0xffffffff80000000 - 0x200000

/-- The value a C `int` holds after a computation whose exact result is `z`. -/
def int32 (z : Int) : Int := Int.bmod z (0x100000000)

theorem int32_of_range {z : Int} (hlo : -0x80000000 ≤ z) (hhi : z < 0x80000000) : int32 z = z := by
  unfold int32
  apply Int.bmod_eq_of_le <;> omega

/-- The conversion of an `int` to `size_t`. -/
def sizeT (z : Int) : Nat := (z % 0x10000000000000000).toNat

theorem sizeT_of_range {n : Nat} (h : n < 0x10000000000000000) : sizeT n = n := by
  unfold sizeT
  omega

inductive ProcessStatus where
  | ready | running | blocked | dead
  deriving DecidableEq, Repr

structure Process where
  cr3 : Nat
  status : ProcessStatus
  context : Ptr
  next : Ptr
  waitNext : Ptr
  pid : Int
  kernelStack : Ptr
  resources : Ptr
  resourcesCap : Int
  anonAllocateEnd : Nat
  elfEnd : Nat
  deriving DecidableEq, Repr

/-- What `memset(p, 0, sizeof(process))` leaves; the zero status is READY. -/
def Process.zeroed : Process :=
  ⟨0, .ready, NULL, NULL, NULL, 0, NULL, NULL, 0, 0, 0⟩

/-- The statuses `schedule` passes over. -/
def ProcessStatus.Parked (st : ProcessStatus) : Prop := st = .dead ∨ st = .blocked

instance (st : ProcessStatus) : Decidable st.Parked := by
  unfold ProcessStatus.Parked
  infer_instance

structure Scheduler where
  procs : Ptr → Process
  processList : Ptr
  currentProcess : Ptr

namespace Scheduler

def modify (k : Scheduler) (p : Ptr) (f : Process → Process) : Scheduler :=
  { k with procs := Function.update k.procs p (f (k.procs p)) }

def setStatus (k : Scheduler) (p : Ptr) (st : ProcessStatus) : Scheduler :=
  k.modify p fun q => { q with status := st }

def next (k : Scheduler) (p : Ptr) : Ptr := (k.procs p).next

def status (k : Scheduler) (p : Ptr) : ProcessStatus := (k.procs p).status

/-- The pointers `schedule` walks over, as a list. -/
def Listed (k : Scheduler) (l : List Ptr) : Prop := Chain k.next NULL k.processList l

/-- The first two statements of `schedule`: the old context is saved and the
old process is made READY unless it is DEAD or BLOCKED. -/
def requeue (k : Scheduler) (context : Ptr) : Scheduler :=
  k.modify k.currentProcess fun q =>
    { q with context := context, status := if q.status.Parked then q.status else .ready }

/-- The process after the current one, going round from the tail to the head. -/
def following (k : Scheduler) (p : Ptr) : Ptr :=
  if k.next p ≠ NULL then k.next p else k.processList

def scheduleLoop : Nat → Scheduler → Option Scheduler
  | 0, _ => none
  | fuel + 1, k =>
      let c := k.following k.currentProcess
      if c = NULL then none
      else if (k.status c).Parked then scheduleLoop fuel { k with currentProcess := c }
      else some ({ k with currentProcess := c }.setStatus c .running)

/-- The new state and the context that is returned to the interrupt handler. -/
def schedule (fuel : Nat) (k : Scheduler) (context : Ptr) : Option (Scheduler × Ptr) :=
  (scheduleLoop fuel (k.requeue context)).map fun k' => (k', (k'.procs k'.currentProcess).context)

@[simp] theorem modify_processList (k : Scheduler) (p : Ptr) (f : Process → Process) :
    (k.modify p f).processList = k.processList := rfl

@[simp] theorem modify_currentProcess (k : Scheduler) (p : Ptr) (f : Process → Process) :
    (k.modify p f).currentProcess = k.currentProcess := rfl

theorem modify_procs_self (k : Scheduler) (p : Ptr) (f : Process → Process) :
    (k.modify p f).procs p = f (k.procs p) := by simp [modify]

theorem modify_procs_ne (k : Scheduler) {p q : Ptr} (h : q ≠ p) (f : Process → Process) :
    (k.modify p f).procs q = k.procs q := by simp [modify, h]

/-- A field that the update leaves alone is the same everywhere. -/
theorem modify_field {β : Type} (k : Scheduler) (p q : Ptr) {f : Process → Process}
    (g : Process → β) (h : ∀ x, g (f x) = g x) :
    g ((k.modify p f).procs q) = g (k.procs q) := by
  by_cases e : q = p
  · subst e
    rw [modify_procs_self, h]
  · rw [modify_procs_ne k e]

theorem following_mem {k : Scheduler} {l : List Ptr} (hl : k.Listed l) {p : Ptr} (hp : p ∈ l) :
    k.following p ∈ l := by
  unfold following
  split
  · exact hl.next_mem hp ‹_›
  · refine hl.head_mem fun h => ?_
    rw [hl.head_null_iff.mp h] at hp
    simp at hp

/-- What one successful search of the loop does: it only moves the current
process, to one that is neither DEAD nor BLOCKED, and marks it RUNNING. -/
theorem scheduleLoop_spec {fuel : Nat} {k k' : Scheduler} (h : scheduleLoop fuel k = some k') :
    ∃ c, c ≠ NULL ∧ ¬(k.status c).Parked ∧
      k' = { k with currentProcess := c }.setStatus c .running ∧
      ∀ l, k.Listed l → k.currentProcess ∈ l → c ∈ l := by
  induction fuel generalizing k with
  | zero => simp [scheduleLoop] at h
  | succ fuel ih =>
      simp only [scheduleLoop] at h
      split at h
      · simp at h
      · rename_i hnull
        split at h
        · obtain ⟨c, hc, hp, hk, hmem⟩ := ih h
          exact ⟨c, hc, hp, hk, fun l hl hcur => hmem l hl (following_mem hl hcur)⟩
        · rename_i hpark
          cases h
          exact ⟨_, hnull, hpark, rfl, fun l hl hcur => following_mem hl hcur⟩

theorem requeue_status (k : Scheduler) (context : Ptr) (p : Ptr) :
    (k.requeue context).status p =
      if p = k.currentProcess ∧ ¬(k.status p).Parked then .ready else k.status p := by
  unfold requeue status
  by_cases h : p = k.currentProcess
  · subst h
    rw [modify_procs_self]
    by_cases hp : (k.procs k.currentProcess).status.Parked <;> simp [hp]
  · rw [modify_procs_ne k h]
    simp [h]

theorem requeue_parked_iff (k : Scheduler) (context : Ptr) (p : Ptr) :
    ((k.requeue context).status p).Parked ↔ (k.status p).Parked := by
  rw [requeue_status]
  by_cases h : p = k.currentProcess ∧ ¬(k.status p).Parked
  · rw [if_pos h]
    simp only [h.2, iff_false]
    simp [ProcessStatus.Parked]
  · rw [if_neg h]

theorem requeue_field {β : Type} (k : Scheduler) (context q : Ptr) (g : Process → β)
    (h : ∀ x ctx st, g { x with context := ctx, status := st } = g x) :
    g ((k.requeue context).procs q) = g (k.procs q) :=
  modify_field k _ q g fun x => h x _ _

/-- Everything `schedule` may have done when it returns. -/
structure Switched (k k' : Scheduler) : Prop where
  processList : k'.processList = k.processList
  current_ne : k'.currentProcess ≠ NULL
  current_free : ¬(k.status k'.currentProcess).Parked
  current_running : k'.status k'.currentProcess = .running
  parked_iff : ∀ p, (k'.status p).Parked ↔ (k.status p).Parked
  parked_eq : ∀ p, (k.status p).Parked → k'.status p = k.status p
  field : ∀ {β : Type} (g : Process → β) (p : Ptr),
    (∀ x ctx st, g { x with context := ctx, status := st } = g x) →
    g (k'.procs p) = g (k.procs p)
  current_mem : ∀ l, k.Listed l → k.currentProcess ∈ l → k'.currentProcess ∈ l

theorem schedule_switched {fuel : Nat} {k k' : Scheduler} {context r : Ptr}
    (h : schedule fuel k context = some (k', r)) : Switched k k' := by
  simp only [schedule, Option.map_eq_some_iff, Prod.mk.injEq] at h
  obtain ⟨k₁, hloop, rfl, _⟩ := h
  obtain ⟨c, hc, hp, rfl, hmem⟩ := scheduleLoop_spec hloop
  have hfree : ¬(k.status c).Parked := by rwa [requeue_parked_iff] at hp
  have hself : (({ k.requeue context with currentProcess := c }).setStatus c .running).status c
      = .running := by simp [setStatus, status, modify]
  have hother : ∀ p, p ≠ c →
      (({ k.requeue context with currentProcess := c }).setStatus c .running).status p =
        (k.requeue context).status p := by
    intro p hpc
    simp [setStatus, status, modify, hpc]
  refine ⟨rfl, hc, hfree, hself, ?_, ?_, ?_, ?_⟩
  · intro p
    by_cases hpc : p = c
    · subst hpc
      simp only [hself, hfree, iff_false]
      simp [ProcessStatus.Parked]
    · rw [hother p hpc, requeue_parked_iff]
  · intro p hpark
    have hpc : p ≠ c := by rintro rfl; exact hfree hpark
    rw [hother p hpc, requeue_status, if_neg (fun h => h.2 hpark)]
  · intro β g p hg
    have h₁ := modify_field { k.requeue context with currentProcess := c } c p
      (f := fun q => { q with status := .running }) g fun x => by
        simpa using hg x x.context .running
    exact h₁.trans (requeue_field k context p g hg)
  · intro l hl hcur
    refine hmem l ?_ hcur
    refine Chain.congr hl fun x _ => ?_
    exact requeue_field k context x Process.next fun _ _ _ => rfl

namespace Switched

variable {k k' : Scheduler} (h : Switched k k')

include h

theorem next_eq (p : Ptr) : k'.next p = k.next p :=
  h.field Process.next p fun _ _ _ => rfl

theorem waitNext_eq (p : Ptr) : (k'.procs p).waitNext = (k.procs p).waitNext :=
  h.field Process.waitNext p fun _ _ _ => rfl

theorem listed {l : List Ptr} (hl : k.Listed l) : k'.Listed l := by
  unfold Listed at *
  rw [h.processList]
  exact hl.congr fun x _ => h.next_eq x

theorem blocked_iff (p : Ptr) : k'.status p = .blocked ↔ k.status p = .blocked := by
  constructor
  · intro hb
    have hk : (k.status p).Parked := (h.parked_iff p).mp (Or.inr hb)
    rw [← h.parked_eq p hk, hb]
  · intro hb
    rw [h.parked_eq p (Or.inr hb), hb]

end Switched

end Scheduler

end BayosKernel
