import BayosKernel.PipeRing

/-!
The order of the bytes of one `pipe_write` call, and the whole pipe as a
first-in-first-out queue.
-/

namespace BayosKernel

open Foundation

/-- The call a writer is in and how many of its bytes are stored. -/
def PipePoint.progress : PipePoint → Option (WriteCall × Nat)
  | .writeWait w | .writeCheck w | .writeLock w | .writeSlot w | .writeStore w _ =>
      some (w, w.index)
  | .writeLoad w | .writeSet w _ | .writeUnlock w | .writeSignal w => some (w, w.index + 1)
  | _ => none

/-- The call whose next byte is about to be stored. -/
def PipePoint.storing : PipePoint → Option WriteCall
  | .writeCheck w | .writeLock w | .writeSlot w | .writeStore w _ => some w
  | _ => none

theorem PipePoint.afterWait_progress (pt : PipePoint) :
    pt.afterWait.progress = pt.progress := by
  cases pt <;> rfl

/-- The stored bytes of a call, in the order of the stores. -/
def bytesOf (stored : List Stored) (c : Nat) : List UInt8 :=
  (stored.filter fun e => e.writer = some c).map Stored.byte

theorem bytesOf_append_self (stored : List Stored) (c slot : Nat) (byte : UInt8) :
    bytesOf (stored ++ [⟨some c, slot, byte⟩]) c = bytesOf stored c ++ [byte] := by
  simp [bytesOf]

theorem bytesOf_append_ne (stored : List Stored) {writer : Option Nat} {c : Nat}
    (h : writer ≠ some c) (slot : Nat) (byte : UInt8) :
    bytesOf (stored ++ [⟨writer, slot, byte⟩]) c = bytesOf stored c := by
  simp [bytesOf, h]

structure Calls (st : PipeState) : Prop where
  known : ∀ p w k, (st.code p).progress = some (w, k) →
    st.calls[w.call]? = some w.data ∧ bytesOf st.stored w.call = w.data.take k
  distinct : ∀ p q w w' k k', (st.code p).progress = some (w, k) →
    (st.code q).progress = some (w', k') → w.call = w'.call → p = q
  storing : ∀ p w, (st.code p).storing = some w → w.index < w.data.length
  waiting : ∀ p w, st.code p = .writeWait w → st.sem.point p ≠ .outside →
    w.index < w.data.length
  inOrder : ∀ c data, st.calls[c]? = some data → bytesOf st.stored c <+: data
  fresh : ∀ c, st.calls.length ≤ c → bytesOf st.stored c = []

namespace Calls

variable {st st' : PipeState}

/-- The current process moves on within its call, or leaves it. -/
theorem move (h : Calls st) {b : PipePoint}
    (hcode : st'.code = Function.update st.code st.current b) (hcalls : st'.calls = st.calls)
    (hstored : st'.stored = st.stored)
    (hpoint : ∀ p, st'.sem.point p ≠ .outside → p ≠ st.current ∧ st.sem.point p ≠ .outside)
    (hprogress : ∀ w k, b.progress = some (w, k) → ∃ w', w'.call = w.call ∧ w'.data = w.data ∧
      (st.code st.current).progress = some (w', k))
    (hstoring : ∀ w, b.storing = some w → w.index < w.data.length) : Calls st' := by
  -- every call in progress was in progress before, at the same process
  have hold : ∀ p w k, (st'.code p).progress = some (w, k) → ∃ w', w'.call = w.call ∧
      w'.data = w.data ∧ (st.code p).progress = some (w', k) := by
    intro p w k hp
    by_cases hpc : p = st.current
    · rw [hpc] at hp ⊢
      rw [hcode, Function.update_self] at hp
      exact hprogress w k hp
    · rw [hcode, Function.update_of_ne hpc] at hp
      exact ⟨w, rfl, rfl, hp⟩
  refine ⟨?_, ?_, ?_, ?_, ?_, ?_⟩
  · intro p w k hp
    obtain ⟨w', hc, hd, hw⟩ := hold p w k hp
    have := h.known p w' k hw
    rw [hc, hd] at this
    rwa [hcalls, hstored]
  · intro p q w w' k k' hp hq hcall
    obtain ⟨v, hv, _, hpv⟩ := hold p w k hp
    obtain ⟨v', hv', _, hqv⟩ := hold q w' k' hq
    exact h.distinct p q v v' k k' hpv hqv (by rw [hv, hv', hcall])
  · intro p w hp
    by_cases hpc : p = st.current
    · rw [hcode, hpc, Function.update_self] at hp
      exact hstoring w hp
    · rw [hcode, Function.update_of_ne hpc] at hp
      exact h.storing p w hp
  · intro p w hp hout
    obtain ⟨hpc, hout'⟩ := hpoint p hout
    rw [hcode, Function.update_of_ne hpc] at hp
    exact h.waiting p w hp hout'
  · rw [hcalls, hstored]
    exact h.inOrder
  · rw [hcalls, hstored]
    exact h.fresh

/-- A step that moves no process in the code. -/
theorem sameCode (h : Calls st) (hcode : st'.code = st.code) (hcalls : st'.calls = st.calls)
    (hbytes : ∀ c, bytesOf st'.stored c = bytesOf st.stored c)
    (hpoint : ∀ p w, st.code p = .writeWait w → st'.sem.point p ≠ .outside →
      st.sem.point p ≠ .outside ∨ w.index < w.data.length) : Calls st' := by
  refine ⟨?_, ?_, ?_, ?_, ?_, ?_⟩
  · simpa only [hcode, hcalls, hbytes] using h.known
  · simpa only [hcode] using h.distinct
  · simpa only [hcode] using h.storing
  · intro p w hp hout
    rw [hcode] at hp
    exact (hpoint p w hp hout).elim (h.waiting p w hp) id
  · simpa only [hcalls, hbytes] using h.inOrder
  · simpa only [hcalls, hbytes] using h.fresh

/-- The next byte of a call is stored. -/
theorem store (h : Calls st) {w : WriteCall} {slot : Nat}
    (hcode : st.code st.current = .writeStore w slot)
    (hcode' : st'.code = Function.update st.code st.current (.writeLoad w))
    (hcalls : st'.calls = st.calls)
    (hstored : st'.stored = st.stored ++ [⟨some w.call, slot, w.data.getD w.index 0⟩])
    (hpoint : st'.sem = st.sem) : Calls st' := by
  have hcur : (st.code st.current).progress = some (w, w.index) := by rw [hcode]; rfl
  have hlt : w.index < w.data.length := h.storing st.current w (by rw [hcode]; rfl)
  obtain ⟨hdata, hbytes⟩ := h.known _ w w.index hcur
  have hnew : bytesOf st'.stored w.call = w.data.take (w.index + 1) := by
    rw [hstored, bytesOf_append_self, hbytes, List.take_add_one, List.getD_eq_getElem?_getD,
      List.getElem?_eq_getElem hlt]
    rfl
  have hother : ∀ c, c ≠ w.call → bytesOf st'.stored c = bytesOf st.stored c := fun c hc => by
    rw [hstored, bytesOf_append_ne _ (by simpa using Ne.symm hc)]
  refine ⟨?_, ?_, ?_, ?_, ?_, ?_⟩
  · intro p w' k hp
    rw [hcalls]
    by_cases hpc : p = st.current
    · rw [hcode', hpc, Function.update_self] at hp
      cases hp
      exact ⟨hdata, hnew⟩
    · rw [hcode', Function.update_of_ne hpc] at hp
      have hne : w'.call ≠ w.call := fun hc => hpc (h.distinct p _ w' w k _ hp hcur hc)
      rw [hother _ hne]
      exact h.known p w' k hp
  · intro p q v v' k k' hp hq hcall
    by_cases hpc : p = st.current <;> by_cases hqc : q = st.current
    · rw [hpc, hqc]
    · rw [hcode', hpc, Function.update_self] at hp
      rw [hcode', Function.update_of_ne hqc] at hq
      cases hp
      rw [hpc]
      exact h.distinct _ q w v' _ k' hcur hq hcall
    · rw [hcode', Function.update_of_ne hpc] at hp
      rw [hcode', hqc, Function.update_self] at hq
      cases hq
      rw [hqc]
      exact h.distinct p _ v w k _ hp hcur hcall
    · rw [hcode', Function.update_of_ne hpc] at hp
      rw [hcode', Function.update_of_ne hqc] at hq
      exact h.distinct p q v v' k k' hp hq hcall
  · intro p v hp
    by_cases hpc : p = st.current
    · rw [hcode', hpc, Function.update_self] at hp
      cases hp
    · rw [hcode', Function.update_of_ne hpc] at hp
      exact h.storing p v hp
  · intro p v hp hout
    by_cases hpc : p = st.current
    · rw [hcode', hpc, Function.update_self] at hp
      cases hp
    · rw [hcode', Function.update_of_ne hpc] at hp
      rw [hpoint] at hout
      exact h.waiting p v hp hout
  · intro c data hc
    rw [hcalls] at hc
    by_cases hcw : c = w.call
    · subst hcw
      rw [hdata] at hc
      cases hc
      rw [hnew]
      exact List.take_prefix _ _
    · rw [hother c hcw]
      exact h.inOrder c data hc
  · intro c hc
    rw [hcalls] at hc
    have hlen := (List.getElem?_eq_some_iff.mp hdata).1
    rw [hother c (by omega)]
    exact h.fresh c hc

/-- A new call gets a number no byte was stored for. -/
theorem newCall (h : Calls st) {data : List UInt8}
    (hcode' : st'.code = Function.update st.code st.current (.writeWait ⟨st.calls.length, data, 0⟩))
    (hcalls : st'.calls = st.calls ++ [data]) (hstored : st'.stored = st.stored)
    (hsem : st'.sem = st.sem) (hout : st.sem.point st.current = .outside) : Calls st' := by
  have hlt : ∀ p w k, (st.code p).progress = some (w, k) → w.call < st.calls.length :=
    fun p w k hp => (List.getElem?_eq_some_iff.mp (h.known p w k hp).1).1
  refine ⟨?_, ?_, ?_, ?_, ?_, ?_⟩
  · intro p w k hp
    rw [hcalls, hstored]
    by_cases hpc : p = st.current
    · rw [hcode', hpc, Function.update_self] at hp
      cases hp
      simp [h.fresh st.calls.length (Nat.le_refl _)]
    · rw [hcode', Function.update_of_ne hpc] at hp
      rw [List.getElem?_append_left (hlt p w k hp)]
      exact h.known p w k hp
  · intro p q w w' k k' hp hq hcall
    by_cases hpc : p = st.current <;> by_cases hqc : q = st.current
    · rw [hpc, hqc]
    · rw [hcode', hpc, Function.update_self] at hp
      rw [hcode', Function.update_of_ne hqc] at hq
      cases hp
      have := hlt q w' k' hq
      simp only at hcall
      omega
    · rw [hcode', Function.update_of_ne hpc] at hp
      rw [hcode', hqc, Function.update_self] at hq
      cases hq
      have := hlt p w k hp
      simp only at hcall
      omega
    · rw [hcode', Function.update_of_ne hpc] at hp
      rw [hcode', Function.update_of_ne hqc] at hq
      exact h.distinct p q w w' k k' hp hq hcall
  · intro p w hp
    by_cases hpc : p = st.current
    · rw [hcode', hpc, Function.update_self] at hp
      cases hp
    · rw [hcode', Function.update_of_ne hpc] at hp
      exact h.storing p w hp
  · intro p w hp hpt
    rw [hsem] at hpt
    have hpc : p ≠ st.current := by
      rintro rfl
      exact hpt hout
    rw [hcode', Function.update_of_ne hpc] at hp
    exact h.waiting p w hp hpt
  · intro c d hc
    rw [hcalls] at hc
    rw [hstored]
    rcases Nat.lt_or_ge c st.calls.length with hlt | hge
    · rw [List.getElem?_append_left hlt] at hc
      exact h.inOrder c d hc
    · rw [h.fresh c hge]
      exact List.nil_prefix
  · intro c hc
    rw [hcalls] at hc
    rw [hstored]
    exact h.fresh c (by simp at hc; omega)

/-- Moving on with the same byte count of the same call, or out of any call. -/
theorem goto (h : Calls st) {b : PipePoint} (hout : st.sem.point st.current = .outside)
    (hcode : st'.code = Function.update st.code st.current b) (hcalls : st'.calls = st.calls)
    (hstored : st'.stored = st.stored) (hpoint : st'.sem.point = st.sem.point)
    (hprogress : ∀ w k, b.progress = some (w, k) → ∃ w', w'.call = w.call ∧ w'.data = w.data ∧
      (st.code st.current).progress = some (w', k))
    (hstoring : b.storing = none ∨ b.storing = (st.code st.current).storing) : Calls st' := by
  refine h.move hcode hcalls hstored (fun p hp => ?_) hprogress fun w hw => ?_
  · rw [hpoint] at hp
    exact ⟨by rintro rfl; exact hp hout, hp⟩
  · rcases hstoring with hn | hs
    · rw [hn] at hw
      cases hw
    · rw [hs] at hw
      exact h.storing _ w hw

/-- Where `sem_wait` leads, the call is the same and its next byte exists. -/
theorem afterWait (h : Calls st) {s : Ptr} (hw : (st.code st.current).waitsOn st.pipe = some s)
    (hlt : ∀ w, st.code st.current = .writeWait w → w.index < w.data.length)
    (hcode : st'.code = Function.update st.code st.current (st.code st.current).afterWait)
    (hcalls : st'.calls = st.calls) (hstored : st'.stored = st.stored)
    (hpoint : ∀ p, st'.sem.point p ≠ .outside → p ≠ st.current ∧ st.sem.point p ≠ .outside) :
    Calls st' := by
  refine h.move hcode hcalls hstored hpoint ?_ ?_
  · exact fun w k hp => ⟨w, rfl, rfl, by rw [← hp, PipePoint.afterWait_progress]⟩
  · intro w hp
    have hs := h.storing st.current w
    cases hc : st.code st.current <;>
      simp_all [PipePoint.waitsOn, PipePoint.afterWait, PipePoint.storing]

theorem waitOn {l : List Ptr} {n : Ptr → Int} (h : Calls st) (ha : Accounts l n st)
    (hout : st.sem.point st.current = .outside) {s : Ptr}
    (hw : (st.code st.current).waitsOn st.pipe = some s)
    (hlt : ∀ w, st.code st.current = .writeWait w → w.index < w.data.length) :
    Calls (st.waitOn s) := by
  have hnw := ha.wait_noWrap s
  have hcur : (st.sem.wait s).current = st.current := SemState.wait_current ha.queues hnw
  by_cases hpos : 0 < st.sem.count s
  · have hpt : (st.sem.wait s).point = st.sem.point := by
      rw [SemState.wait_of_pos ha.queues hpos]
    have hgo : st.waitOn s =
        PipeState.goto { st with sem := st.sem.wait s } (st.code st.current).afterWait := by
      simp [PipeState.waitOn, hpt, hout]
    rw [hgo]
    refine h.afterWait hw hlt (PipeState.goto_code hcur _) rfl rfl fun p hp => ?_
    rw [show (PipeState.goto { st with sem := st.sem.wait s } _).sem.point = _ from hpt] at hp
    exact ⟨by rintro rfl; exact hp hout, hp⟩
  · have ev := SemState.wait_blocked ha.queues (Int.not_lt.mp hpos) hnw
    have hstay : st.waitOn s = { st with sem := st.sem.wait s } := by
      simp [PipeState.waitOn, ev.point, PipeState.current]
    rw [hstay]
    refine h.sameCode rfl rfl (fun c => rfl) fun p w hp hpt => ?_
    by_cases hpc : p = st.current
    · exact .inr (hlt w (hpc ▸ hp))
    · rw [ev.point, st.sem_current, Function.update_of_ne hpc] at hpt
      exact .inl hpt

theorem signalOn {l : List Ptr} {n : Ptr → Int} (h : Calls st) (ha : Accounts l n st)
    (hout : st.sem.point st.current = .outside) {s : Ptr} {b : PipePoint}
    (hnw : st.sem.count s + 1 < 0x80000000)
    (hprogress : ∀ w k, b.progress = some (w, k) → ∃ w', w'.call = w.call ∧ w'.data = w.data ∧
      (st.code st.current).progress = some (w', k))
    (hstoring : b.storing = none) : Calls (st.signalOn s b) :=
  h.goto hout (PipeState.goto_code (SemState.signal_current ha.queues _ hnw) b) rfl rfl
    (SemState.signal_point ha.queues _ hnw) hprogress (.inl hstoring)

theorem statement {l : List Ptr} {n : Ptr → Int} (h : Calls st) (ha : Accounts l n st)
    (hout : st.sem.point st.current = .outside)
    (hs : st.statement (st.code st.current) = some st') : Calls st' := by
  cases hcode : st.code st.current with
  | idle result => simp [hcode, PipeState.statement] at hs
  | writeWait w =>
      simp only [hcode, PipeState.statement] at hs
      split at hs
      · rename_i hlt
        cases hs
        refine h.waitOn ha hout (by rw [hcode]; rfl) fun w' hw => ?_
        rw [hcode] at hw
        cases hw
        exact hlt
      · cases hs
        exact h.goto hout rfl rfl rfl rfl (by simp [PipePoint.progress]) (.inl rfl)
  | writeCheck w =>
      simp only [hcode, PipeState.statement] at hs
      split at hs <;> cases hs
      · exact h.goto hout rfl rfl rfl rfl (by simp [PipePoint.progress]) (.inl rfl)
      · exact h.goto hout rfl rfl rfl rfl
          (fun v k hv => ⟨v, rfl, rfl, by rw [hcode, ← hv]; rfl⟩) (.inr (by rw [hcode]; rfl))
  | writeLock w =>
      simp only [hcode, PipeState.statement, Option.some.injEq] at hs
      subst hs
      exact h.waitOn ha hout (by rw [hcode]; rfl) fun w' hw => by simp [hcode] at hw
  | writeSlot w =>
      simp only [hcode, PipeState.statement, Option.some.injEq] at hs
      subst hs
      exact h.goto hout rfl rfl rfl rfl
        (fun v k hv => ⟨v, rfl, rfl, by rw [hcode, ← hv]; rfl⟩) (.inr (by rw [hcode]; rfl))
  | writeStore w slot =>
      simp only [hcode, PipeState.statement, Option.some.injEq] at hs
      subst hs
      exact h.store hcode rfl rfl rfl rfl
  | writeLoad w =>
      simp only [hcode, PipeState.statement, Option.some.injEq] at hs
      subst hs
      exact h.goto hout rfl rfl rfl rfl
        (fun v k hv => ⟨v, rfl, rfl, by rw [hcode, ← hv]; rfl⟩) (.inl rfl)
  | writeSet w v =>
      simp only [hcode, PipeState.statement, Option.some.injEq] at hs
      subst hs
      exact h.goto hout rfl rfl rfl rfl
        (fun v k hv => ⟨v, rfl, rfl, by rw [hcode, ← hv]; rfl⟩) (.inl rfl)
  | writeUnlock w =>
      simp only [hcode, PipeState.statement, Option.some.injEq] at hs
      subst hs
      exact h.signalOn ha hout (ha.lock_noWrap (by rw [hcode]; rfl))
        (fun v k hv => ⟨v, rfl, rfl, by rw [hcode, ← hv]; rfl⟩) rfl
  | writeSignal w =>
      simp only [hcode, PipeState.statement, Option.some.injEq] at hs
      subst hs
      refine h.signalOn ha hout (ha.full_noWrap (by rw [hcode]; rfl)) (fun v k hv => ?_) rfl
      cases hv
      exact ⟨w, rfl, rfl, by rw [hcode]; rfl⟩
  | readWait r =>
      simp only [hcode, PipeState.statement, Option.some.injEq] at hs
      subst hs
      exact h.waitOn ha hout (by rw [hcode]; rfl) fun w' hw => by simp [hcode] at hw
  | readLock r =>
      simp only [hcode, PipeState.statement, Option.some.injEq] at hs
      subst hs
      exact h.waitOn ha hout (by rw [hcode]; rfl) fun w' hw => by simp [hcode] at hw
  | readLoad r =>
      simp only [hcode, PipeState.statement, Option.some.injEq] at hs
      subst hs
      exact h.goto hout rfl rfl rfl rfl (by simp [PipePoint.progress]) (.inl rfl)
  | readMove r =>
      simp only [hcode, PipeState.statement, Option.some.injEq] at hs
      subst hs
      exact h.goto hout rfl rfl rfl rfl (by simp [PipePoint.progress]) (.inl rfl)
  | readUnlock r =>
      simp only [hcode, PipeState.statement, Option.some.injEq] at hs
      subst hs
      exact h.signalOn ha hout (ha.lock_noWrap (by rw [hcode]; rfl))
        (by simp [PipePoint.progress]) rfl
  | readSignal r =>
      simp only [hcode, PipeState.statement, Option.some.injEq] at hs
      subst hs
      exact h.signalOn ha hout (ha.empty_noWrap (by rw [hcode]; rfl))
        (by simp [PipePoint.progress]) rfl
  | readNext r =>
      simp only [hcode, PipeState.statement] at hs
      split at hs
      · have hsem : (st.sem.trywait (some st.current) st.pipe.semFull).1.current = st.current ∧
            (st.sem.trywait (some st.current) st.pipe.semFull).1.point = st.sem.point := by
          by_cases hpos : 0 < st.sem.count st.pipe.semFull
          · rw [SemState.trywait_of_pos ha.queues hpos]
            exact ⟨rfl, rfl⟩
          · rw [SemState.trywait_of_nonpos (Int.not_lt.mp hpos)]
            exact ⟨rfl, rfl⟩
        cases hs
        split <;> exact h.goto hout (PipeState.goto_code hsem.1 _) rfl rfl hsem.2
          (by simp [PipePoint.progress]) (.inl rfl)
      · cases hs
        exact h.goto hout rfl rfl rfl rfl (by simp [PipePoint.progress]) (.inl rfl)

end Calls

theorem pipeMachine_calls {fuel : Nat} {l : List Ptr} {n : Ptr → Int} {st st' : PipeState}
    {a : PipeAction} (h : Calls st) (ha : Accounts l n st)
    (hs : (pipeMachine fuel).step st a = some st') : Calls st' := by
  cases a with
  | callWrite data =>
      simp only [pipeMachine] at hs
      split at hs
      · rename_i result hout hcode
        cases hs
        unfold PipeState.pipeWrite
        split
        · exact h.goto hout rfl rfl rfl rfl (by simp [PipePoint.progress]) (.inl rfl)
        · exact h.newCall rfl rfl rfl rfl hout
      · cases hs
  | callRead len =>
      simp only [pipeMachine] at hs
      split at hs
      · rename_i result hout hcode
        cases hs
        unfold PipeState.pipeRead
        repeat' split
        all_goals exact h.goto hout rfl rfl rfl rfl (by simp [PipePoint.progress]) (.inl rfl)
      · cases hs
  | run context =>
      simp only [pipeMachine] at hs
      split at hs
      · rename_i s hpt
        obtain ⟨sem, hsem, rfl⟩ := Option.map_eq_some_iff.mp hs
        refine h.sameCode rfl rfl (fun c => rfl) fun p w _ hp => .inl fun hpo => hp ?_
        have hpc : p ≠ st.current := by
          rintro rfl
          rw [hpt] at hpo
          cases hpo
        rw [(SemState.yieldWait_moved hsem).1, st.sem_current, Function.update_of_ne hpc, hpo]
      · rename_i s hpt
        cases hs
        have hw := ha.link st.current s (by simp [hpt])
        refine h.afterWait hw (fun w hc => h.waiting _ w hc (by simp [hpt])) rfl rfl rfl
          fun p hp => ?_
        have hpc : p ≠ st.current := by
          rintro rfl
          simp [PipeState.goto, SemState.resume, PipeState.current] at hp
        refine ⟨hpc, ?_⟩
        simpa [PipeState.goto, SemState.resume, st.sem_current, hpc] using hp
      · rename_i hout
        exact h.statement ha hout hs
  | tick context =>
      obtain ⟨sem, hsem, rfl⟩ := Option.map_eq_some_iff.mp hs
      refine h.sameCode rfl rfl (fun c => rfl) fun p w _ hp => .inl ?_
      rwa [(SemState.switch_moved hsem).point] at hp
  | keyboard byte =>
      cases hs
      by_cases ht : st.TakesPermit
      · have hpt := SemState.signal_point (ha.queues.trywait none st.pipe.semEmpty) none
          (ha.trywait_full_noWrap ht)
        have heq : st.sem.trywait none st.pipe.semEmpty = _ :=
          SemState.trywait_of_pos ha.queues ht.2
        rw [PipeState.pipeTryWrite_stored ha.queues ht]
        refine h.sameCode rfl rfl (fun c => bytesOf_append_ne _ (by simp) _ _)
          fun p w _ hp => .inl ?_
        rw [heq] at hpt
        simpa only [heq, hpt] using hp
      · rw [PipeState.pipeTryWrite_refused ht]
        exact h

/-- A pipe as `pipe_create` made it, before any process uses it. -/
structure PipeInit (l : List Ptr) (bufferLen : Nat) (st : PipeState) : Prop where
  sem : SemInit l st.sem
  created : ∃ k content s, pipeCreate k content bufferLen s = (st.sem.kernel, st.pipe)
  inHeap : ∀ p ∈ l, kernelHeap ≤ p ∧ p < kernelHeap + 0x200000
  idle : ∀ p, st.code p = .idle none
  calls : st.calls = []
  stored : st.stored = []
  taken : st.taken = []

/-- The heap has no room for more processes than an `int` can count. -/
theorem length_of_inHeap {l : List Ptr} (hnd : l.Nodup)
    (h : ∀ p ∈ l, kernelHeap ≤ p ∧ p < kernelHeap + 0x200000) : l.length < 0x80000000 := by
  have hsub : l ⊆ List.range' kernelHeap 0x200000 := fun p hp => by
    rw [List.mem_range'_1]
    exact h p hp
  have := hnd.length_le_of_subset hsub
  rw [List.length_range'] at this
  omega

namespace PipeInit

variable {l : List Ptr} {bufferLen : Nat} {st : PipeState}

theorem config (h : PipeInit l bufferLen st) (len_pos : 1 ≤ bufferLen)
    (len_lt : bufferLen < 0x80000000) :
    PipeConfig l st.sem.initialCount st.pipe.semEmpty st.pipe.semFull st.pipe.bufLock
      st.pipe.bufferLen := by
  obtain ⟨k, content, s, hc⟩ := h.created
  simp only [pipeCreate, Prod.mk.injEq] at hc
  obtain ⟨hk, hp⟩ := hc
  have hlen : int32 bufferLen = bufferLen := int32_of_range (by omega) (by omega)
  have he : st.pipe.semEmpty = s + sizeofSemaphore := by rw [← hp]
  have hf : st.pipe.semFull = s + 2 * sizeofSemaphore := by rw [← hp]
  have hm : st.pipe.bufLock = s := by rw [← hp]
  have hb : st.pipe.bufferLen = bufferLen := by rw [← hp]
  have h1 : s + sizeofSemaphore ≠ s + 2 * sizeofSemaphore := by simp [sizeofSemaphore]
  have h2 : s + sizeofSemaphore ≠ s := by simp [sizeofSemaphore]
  have h3 : s + 2 * sizeofSemaphore ≠ s := by simp [sizeofSemaphore]
  rw [he, hf, hm, hb]
  refine ⟨h1, h2, h3, len_pos, len_lt, ?_, ?_, ?_, length_of_inHeap h.sem.listed.nodup h.inHeap⟩
  · simp [SemState.initialCount, SemState.count, ← hk, Kernel.setSem_ne _ h1, semCreate, hlen]
  · simp [SemState.initialCount, SemState.count, ← hk, semCreate]
  · simp [SemState.initialCount, SemState.count, ← hk, Kernel.setSem_ne _ h2.symm,
      Kernel.setSem_ne _ h3.symm, semCreate]

theorem number (h : PipeInit l bufferLen st) (t : Token) : st.number l t = 0 :=
  tally_eq_zero fun p _ => by simp [h.idle p, PipePoint.has, PipePoint.tokens]

theorem accounts (h : PipeInit l bufferLen st) (len_pos : 1 ≤ bufferLen)
    (len_lt : bufferLen < 0x80000000) : Accounts l st.sem.initialCount st where
  queues := h.sem.queues.1
  currentOk := h.sem.queues.2
  permits := h.sem.permits
  config := h.config len_pos len_lt
  link p s hp := absurd hp (by simp [h.sem.outside p])
  members p _ := by rw [h.idle p]; rfl
  ledger := by
    constructor <;>
      simp [h.number, h.stored, h.taken, h.sem.history, signals, acquisitions]

theorem ring (h : PipeInit l bufferLen st) : Ring l st := by
  obtain ⟨k, content, s, hc⟩ := h.created
  simp only [pipeCreate, Prod.mk.injEq] at hc
  constructor
  · simp [← hc.2, h.taken]
  · simp [← hc.2, h.stored]
  · rw [h.stored]
    exact .nil _ _ _
  · simp [h.stored]
  · simp [h.stored, h.taken]
  · simp [h.idle]
  · simp [h.idle]

theorem callsInit (h : PipeInit l bufferLen st) : Calls st := by
  constructor <;> simp [h.idle, h.calls, h.stored, bytesOf, PipePoint.progress, PipePoint.storing]

end PipeInit

/-- The pipe is a queue: what was taken is a prefix of what was stored, at most
`buffer_len` bytes are stored and not taken, each of these stands in its slot
and every read finds the next of them, and the bytes of each call are stored in
the order of its data. -/
structure Fifo (st : PipeState) : Prop where
  inOrder : st.taken <+: st.stored.map Stored.byte
  room : st.stored.length ≤ st.taken.length + st.pipe.bufferLen
  slots : ∀ j e, st.stored[j]? = some e → e.slot = j % st.pipe.bufferLen
  kept : ∀ j e, st.stored[j]? = some e → st.taken.length ≤ j →
    st.pipe.buffer e.slot = e.byte
  reading : ∀ p r, st.code p = .readLoad r → st.taken.length < st.stored.length ∧
    st.pipe.readPos = st.taken.length % st.pipe.bufferLen
  calls : ∀ c data, st.calls[c]? = some data → bytesOf st.stored c <+: data

theorem Ring.fifo {l : List Ptr} {n : Ptr → Int} {st : PipeState} (h : Ring l st)
    (ha : Accounts l n st) (hc : Calls st) : Fifo st where
  inOrder := by
    rw [h.taken]
    exact List.take_prefix _ _
  room := by
    have := ha.unread_le
    omega
  slots := h.slots
  kept j e he hj := by
    rw [h.slots j e he]
    exact h.log j e.byte hj (by simp [he])
  reading _ _ hr := h.load_ready ha hr
  calls := hc.inOrder

/-- All three invariants, for the runs whose interrupts come at clear moments. -/
theorem pipeMachine_invariant {fuel : Nat} {l : List Ptr} {bufferLen : Nat}
    {st₀ st : PipeState} {run : List PipeAction} (init : PipeInit l bufferLen st₀)
    (len_pos : 1 ≤ bufferLen) (len_lt : bufferLen < 0x80000000)
    (clear : (pipeMachine fuel).Meets (fun st a => a.Clear l st) st₀ run)
    (reached : (pipeMachine fuel).exec st₀ run = some st) :
    Accounts l st₀.sem.initialCount st ∧ Ring l st ∧ Calls st :=
  (pipeMachine fuel).exec_invariant
    (I := fun st => Accounts l st₀.sem.initialCount st ∧ Ring l st ∧ Calls st)
    (fun _ _ _ ⟨ha, hr, hc⟩ hclear hs => ⟨pipeMachine_accounts ha hs,
      pipeMachine_ring hr ha hclear hs, pipeMachine_calls hc ha hs⟩)
    ⟨init.accounts len_pos len_lt, init.ring, init.callsInit⟩ clear reached

end BayosKernel
