import BayosKernel.ProcessCustody

/-!
The process list over whole runs in which list operations are not interrupted.

`fork_syscall` copies the parent's `next` into the child. The list stays
well-formed as long as every fork copies a parent that is last in the list and
no two waitpid calls hold the same process; a fork of any other process closes
a cycle.
-/

namespace BayosKernel

open Foundation

/-- A fork copies a parent without successor, and a waitpid finds no process
that another unfinished waitpid holds. -/
def ListAction.Ordered (fuel : Nat) (st : ListState) : ListAction → Prop
  | .run _ =>
      match st.code st.current with
      | .forkCopy _ _ _ _ => st.sched.next st.current = NULL
      | _ => True
  | .waitpid pid status => status = NULL ∨ pid = -1 ∨ ∀ q ∈ st.unreaped,
      (st.code q).struct = none ∨ st.sched.getProcFromPid fuel pid ≠ (st.code q).struct
  | _ => True

instance (fuel : Nat) (st : ListState) (a : ListAction) : Decidable (a.Ordered fuel st) := by
  cases a <;> simp only [ListAction.Ordered] <;> try infer_instance
  split <;> infer_instance

/-- A well-formed list of processes outside of the list's system calls. -/
structure ListInit (st : ListState) : Prop where
  listed : st.sched.Listed st.unreaped
  current_mem : st.current ∈ st.unreaped
  allocated : ∀ p ∈ st.unreaped, p ∈ st.heap
  heap_nodup : st.heap.Nodup
  heap_ne_null : ∀ p ∈ st.heap, p ≠ NULL
  code : ∀ p, st.code p = .idle ∨ st.code p = .exited
  dead : ∀ p ∈ st.unreaped, st.sched.status p = .dead → st.code p = .exited

theorem ListInit.struct {st : ListState} (h : ListInit st) (p : Ptr) :
    (st.code p).struct = none := by
  rcases h.code p with hp | hp <;> rw [hp] <;> rfl

theorem ListInit.custody {st : ListState} (h : ListInit st) : Custody st where
  listed := h.listed
  current_mem := h.current_mem
  allocated := h.allocated
  heap_nodup := h.heap_nodup
  heap_ne_null := h.heap_ne_null
  struct_heap q c hc := by simp [h.struct] at hc
  detached q c hc := by simp [h.struct] at hc
  unique q q' c hc _ := by simp [h.struct] at hc
  outside q _ := h.struct q
  dead := h.dead
  doomed q c _ hc := by simp [h.struct] at hc
  filled q p fork hq := by rcases h.code q with hp | hp <;> simp [hp] at hq

namespace Custody

variable {st st' : ListState} {fuel : Nat}

theorem waitpid (h : Custody st) (hidle : st.code st.current = .idle) {pid : Int} {status : Ptr}
    (hord : (ListAction.waitpid pid status).Ordered fuel st)
    (hs : st.waitpid fuel pid status = some st') : Custody st' := by
  simp only [ListState.waitpid] at hs
  split at hs
  · cases hs
    exact h
  · rename_i harg
    obtain ⟨c, hc, rfl⟩ := Option.map_eq_some_iff.mp hs
    split
    · exact h
    · rename_i hne
      refine h.hold hidle (h.listed.getProcFromPid_mem hc hne) fun q hq hheld => ?_
      rcases hord with hnull | hneg | hfree
      · exact harg (.inl hnull)
      · exact harg (.inr hneg)
      · rcases hfree q hq with hnone | hother
        · rw [hnone] at hheld
          cases hheld
        · exact hother (by rw [hc, hheld])

/-- The statements that both machines share. -/
theorem statement (h : Custody st) {context : Ptr}
    (hord : (ListAction.run context).Ordered fuel st)
    (hs : st.statement fuel context (st.code st.current) = some st') : Custody st' := by
  cases hcode : st.code st.current with
  | exited =>
      rw [hcode] at hs
      exact h.switch hs
  | yielding =>
      rw [hcode] at hs
      refine Custody.switch (h.goto (b := .idle) ?_ ?_ ?_ ?_) hs <;>
        simp [hcode, ListPoint.struct]
  | addFill p stack cr3 =>
      simp only [hcode, ListState.statement, Option.some.injEq] at hs
      subst hs
      exact h.fill (by rw [hcode]; rfl) (by rw [hcode]; rfl) (by simp [hcode]) rfl
        (fun hd => by cases hd) rfl rfl rfl rfl
  | forkCopy p cr3 resources context =>
      have hnull : st.sched.next st.current = NULL := by simpa [ListAction.Ordered, hcode] using hord
      simp only [hcode, ListState.statement, Option.some.injEq] at hs
      subst hs
      refine h.fill (by rw [hcode]; rfl) (by rw [hcode]; rfl) (by simp [hcode]) ?_ ?_ rfl rfl rfl rfl
      · exact hnull
      · exact h.current_not_dead (by simp [hcode])
  | inserting p fork =>
      rw [hcode] at hs
      exact h.insert hcode hs
  | waiting c =>
      simp only [hcode, ListState.statement] at hs
      split at hs
      · rename_i hdead
        cases hs
        refine h.goto (fun d hd => ?_) (fun d _ hd => ?_) (by simp [hcode]) (by simp)
        · rw [hcode]
          exact ⟨hd, rfl⟩
        · cases hd
          exact hdead
      · exact h.switch hs
  | freeing c =>
      simp only [hcode, ListState.statement, Option.some.injEq] at hs
      subst hs
      exact h.free hcode
  | idle | removing _ | headSet _ | start _ | loop _ _ | test _ _ | unlink _ _ | advance _ _
  | clearNext _ =>
      rw [hcode] at hs
      cases hs

/-- One step, where the statements of `remove_proc_from_list` keep the custody. -/
theorem step (h : Custody st) {remove : ListState → ListPoint → Option ListState} {a : ListAction}
    (hremove : ∀ st', remove st (st.code st.current) = some st' → Custody st')
    (hord : a.Ordered fuel st) (hs : ListState.step fuel remove st a = some st') :
    Custody st' := by
  cases a with
  | addProcess p stack cr3 =>
      simp only [ListState.step, Option.ite_none_right_eq_some] at hs
      exact h.alloc hs.1 rfl rfl (by simp) hs.2
  | fork p cr3 resources context =>
      simp only [ListState.step, Option.ite_none_right_eq_some] at hs
      exact h.alloc hs.1 rfl rfl (by simp) hs.2
  | exit =>
      simp only [ListState.step, Option.ite_none_right_eq_some, Option.some.injEq] at hs
      obtain ⟨hidle, rfl⟩ := hs
      exact h.exit hidle
  | waitpid pid status =>
      simp only [ListState.step, Option.ite_none_right_eq_some] at hs
      exact h.waitpid hs.1 hord hs.2
  | run context =>
      simp only [ListState.step] at hs
      split at hs
      · rename_i st'' hrem
        cases hs
        exact hremove _ hrem
      · exact h.statement hord hs
  | tick context => exact h.switch hs

/-- `remove_proc_from_list` without interruption. -/
theorem removeWhole (h : Custody st) (hs : st.removeWhole fuel (st.code st.current) = some st') :
    Custody st' := by
  cases hcode : st.code st.current with
  | removing c =>
      rw [hcode] at hs
      obtain ⟨sched, hr, rfl⟩ := Option.map_eq_some_iff.mp hs
      have hreap : (st.code st.current).reaping = true := by rw [hcode]; rfl
      have hc : (st.code st.current).struct = some c := by rw [hcode]; rfl
      obtain ⟨hlisted, hstatus, hcur, hnext⟩ :=
        h.listed.removeProcFromList (h.reaping_mem hreap hc) hr
      refine h.unlink hreap hc (b := .freeing c) rfl rfl (by simp) ?_ rfl rfl hlisted hstatus
        hcur hnext
      simp only [ListState.goto, ListState.current, hcur]
  | _ =>
      rw [hcode] at hs
      cases hs

end Custody

/-- The list from `process_list` is finite and ends in NULL, so it has no cycle;
it is made of the inserted processes that were not reaped, each once; the list
functions end, whatever process or pid they are called with; and the search of
`schedule` comes from every process to every other one. -/
structure WellListed (st : ListState) : Prop where
  listed : st.sched.Listed st.unreaped
  nodup : st.unreaped.Nodup
  insert_ends : ∀ p, ∃ bound, ∀ fuel, bound ≤ fuel → (st.sched.insertProcess fuel p).isSome
  lookup_ends : ∀ pid, ∃ bound, ∀ fuel, bound ≤ fuel → (st.sched.getProcFromPid fuel pid).isSome
  remove_ends : ∀ p, ∃ bound, ∀ fuel, bound ≤ fuel → (st.sched.removeProcFromList fuel p).isSome
  reach : ∀ p ∈ st.unreaped, ∀ q ∈ st.unreaped, ∃ n, st.sched.following^[n] p = q

theorem Custody.wellListed {st : ListState} (h : Custody st) : WellListed st where
  listed := h.listed
  nodup := h.nodup
  insert_ends p := ⟨st.unreaped.length, fun _ hf => h.listed.insertProcess_isSome h.ne_nil p hf⟩
  lookup_ends pid := ⟨st.unreaped.length + 1, fun _ hf => h.listed.getProcFromPid_isSome pid hf⟩
  remove_ends p := ⟨st.unreaped.length, fun _ hf => h.listed.removeProcFromList_isSome p hf⟩
  reach _ hp _ hq := h.listed.exists_following hp hq

theorem listMachine_custody {fuel : Nat} {st st' : ListState} {a : ListAction} (h : Custody st)
    (hord : a.Ordered fuel st) (hs : (listMachine fuel).step st a = some st') : Custody st' :=
  h.step (fun _ hr => h.removeWhole hr) hord hs

/-- In every run in which forks copy a parent that is last in the list and no
two waitpid calls hold the same process, the list is well-formed in every state
reached. -/
theorem listMachine_wellListed (fuel : Nat) (st₀ st : ListState) (run : List ListAction)
    (init : ListInit st₀)
    (ordered : (listMachine fuel).Meets (fun st a => a.Ordered fuel st) st₀ run)
    (reached : (listMachine fuel).exec st₀ run = some st) : WellListed st :=
  ((listMachine fuel).exec_invariant (fun _ _ _ h hord hs => listMachine_custody h hord hs)
    init.custody ordered reached).wellListed

/-- The condition on forks is needed: a parent that is not last in the list
gives its successor to the child, and the insertion closes a cycle. -/
theorem Custody.fork_cyclic {fuel : Nat} {st st' : ListState} (h : Custody st) {p : Ptr}
    {cr3 : Nat} {resources context : Ptr}
    (hcode : st.code st.current = .forkCopy p cr3 resources context)
    (hnext : st.sched.next st.current ≠ NULL)
    (hins : (st.forkCopy p cr3 resources context).insert fuel p true = some st')
    (l : List Ptr) : ¬st'.sched.Listed l := by
  obtain ⟨sched, hsched, rfl⟩ := Option.map_eq_some_iff.mp hins
  have hp : (st.code st.current).struct = some p := by rw [hcode]; rfl
  have hnot : p ∉ st.unreaped := (h.detached _ p hp).mp (by rw [hcode]; rfl)
  have hcopied : (st.forkCopy p cr3 resources context).sched.next p = st.sched.next st.current := by
    simp [ListState.forkCopy, ListState.setProc, ListState.goto, Scheduler.next,
      Scheduler.modify_procs_self]
  have hlisted : (st.forkCopy p cr3 resources context).sched.Listed st.unreaped :=
    h.listed.congr fun q hq => by
      have hqp : q ≠ p := fun he => hnot (he ▸ hq)
      simp [ListState.forkCopy, ListState.setProc, ListState.goto, Scheduler.next,
        Scheduler.modify_procs_ne _ hqp]
  refine hlisted.insertProcess_cyclic hnot (h.heap_ne_null p (h.struct_heap _ p hp)) ?_ hsched l
  rw [hcopied]
  exact h.listed.next_mem h.current_mem hnext

/-- The fallback process and the init process, which runs. -/
def bootedList : ListState where
  sched :=
    { procs := fun p =>
        if p = kernelHeap + 32 then
          { Process.zeroed with status := .ready, pid := -1, next := kernelHeap + 256 }
        else { Process.zeroed with status := .running, anonAllocateEnd := 0x800000 }
      processList := kernelHeap + 32
      currentProcess := kernelHeap + 256 }
  code _ := .idle
  nextPid := 1
  heap := [kernelHeap + 32, kernelHeap + 256]
  unreaped := [kernelHeap + 32, kernelHeap + 256]

theorem bootedList_init : ListInit bootedList where
  listed := by simp [Scheduler.Listed, Scheduler.next, bootedList, Process.zeroed, kernelHeap]
  current_mem := by decide
  allocated := by decide
  heap_nodup := by decide
  heap_ne_null := by decide
  code _ := .inl rfl
  dead := by decide

/-- Init forks once, the child exits and is reaped. -/
def forkAndWait : List ListAction :=
  [.fork (kernelHeap + 1024) 0x5000 0 0, .run 0, .run 0, .run 0, .exit, .run 0, .tick 0,
    .waitpid 1 8, .run 0, .run 0, .run 0]

theorem listMachine_wellListed_forkAndWait : ∃ st,
    (listMachine 4).exec bootedList forkAndWait = some st ∧
      st.unreaped = [kernelHeap + 32, kernelHeap + 256] ∧ WellListed st := by
  have hrun : ((listMachine 4).exec bootedList forkAndWait).map ListState.unreaped =
      some [kernelHeap + 32, kernelHeap + 256] := by decide +kernel
  obtain ⟨st, hst, hlist⟩ := Option.map_eq_some_iff.mp hrun
  exact ⟨st, hst, hlist, listMachine_wellListed 4 bootedList st forkAndWait bootedList_init
    (by decide +kernel) hst⟩

/-- Init forks twice. -/
def forkTwice : List ListAction :=
  [.fork (kernelHeap + 1024) 0x5000 0 0, .run 0, .run 0, .run 0, .tick 0, .tick 0,
    .fork (kernelHeap + 2048) 0x6000 0 0, .run 0, .run 0]

/-- The second child points to the first one and the first one to the second:
the list does not end, and the next `insert_process` does not either. -/
theorem forkTwice_cyclic : ∃ st, (listMachine 4).exec bootedList forkTwice = some st ∧
    (∀ l, ¬st.sched.Listed l) ∧ ∀ fuel p, st.sched.insertProcess fuel p = none := by
  have hrun : ((listMachine 4).exec bootedList forkTwice).map (fun st =>
      (st.sched.processList, st.sched.next (kernelHeap + 32), st.sched.next (kernelHeap + 256),
        st.sched.next (kernelHeap + 1024), st.sched.next (kernelHeap + 2048))) =
      some (kernelHeap + 32, kernelHeap + 256, kernelHeap + 1024, kernelHeap + 2048,
        kernelHeap + 1024) := by decide +kernel
  obtain ⟨st, hst, heq⟩ := Option.map_eq_some_iff.mp hrun
  simp only [Prod.mk.injEq] at heq
  obtain ⟨hhead, h1, h2, h3, h4⟩ := heq
  have hclosed : ∀ x, x ∈ [kernelHeap + 32, kernelHeap + 256, kernelHeap + 1024,
      kernelHeap + 2048] → x ≠ NULL ∧ st.sched.next x ∈ [kernelHeap + 32, kernelHeap + 256,
      kernelHeap + 1024, kernelHeap + 2048] := by
    intro x hx
    simp only [List.mem_cons, List.not_mem_nil, or_false] at hx
    rcases hx with rfl | rfl | rfl | rfl <;> refine ⟨by decide, ?_⟩ <;>
      simp only [h1, h2, h3, h4] <;> decide
  refine ⟨st, hst, fun l hl => ?_, fun fuel p => ?_⟩
  · exact Chain.not_of_closed _ (by rw [hhead]; simp) hclosed hl
  · rw [Scheduler.insertProcess, Scheduler.insertLoop_of_closed _ (by rw [hhead]; simp) hclosed]
    rfl

end BayosKernel
