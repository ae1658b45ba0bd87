import BayosKernel.Foundation.RingLog
import BayosKernel.PipeTokens

/-!
The contents of the ring over whole runs.

`buf_lock` keeps processes out of each other's updates. The keyboard interrupt
does not take it; as long as an interrupt that stores a byte finds no process
between the evaluation of `p->write_pos` for the store and the update of
`write_pos`, the ring is a log of the stored bytes (`Ring`), read in order.
-/

namespace BayosKernel

open Foundation

/-- Between the evaluation of `p->write_pos` for the store and its update. -/
def PipePoint.updating : PipePoint → Bool
  | .writeStore _ _ | .writeLoad _ | .writeSet _ _ => true
  | _ => false

/-- An interrupt that stores a byte finds no process of the list in its update. -/
def PipeAction.Clear (l : List Ptr) (st : PipeState) : PipeAction → Prop
  | .keyboard _ => st.TakesPermit → ∀ p ∈ l, (st.code p).updating = false
  | _ => True

instance (l : List Ptr) (st : PipeState) (a : PipeAction) : Decidable (a.Clear l st) := by
  cases a <;> simp only [PipeAction.Clear] <;> infer_instance

theorem PipePoint.lock_of_advance {pt : PipePoint} (h : pt.has .advance = true) :
    pt.has .lock = true := by
  cases pt <;> simp_all [has, tokens]

theorem PipePoint.lock_of_move {pt : PipePoint} (h : pt.has .move = true) :
    pt.has .lock = true := by
  cases pt <;> simp_all [has, tokens]

theorem PipePoint.advance_of_not_updating {pt : PipePoint} (h : pt.updating = false) :
    pt.has .advance = false := by
  cases pt <;> simp_all [has, tokens, updating]

theorem PipePoint.not_updating_of_tokens {pt : PipePoint} (h : pt.tokens = []) :
    pt.updating = false := by
  cases pt <;> simp_all [tokens, updating]

namespace Accounts

variable {l : List Ptr} {n : Ptr → Int} {st : PipeState}

/-- While a process has the lock, nobody else has a token that needs it. -/
theorem number_eq_zero (h : Accounts l n st) {t : Token} {p : Ptr}
    (hneed : ∀ {pt : PipePoint}, pt.has t = true → pt.has .lock = true)
    (hlock : (st.code p).has .lock = true) (hno : (st.code p).has t = false) :
    st.number l t = 0 := by
  refine tally_eq_zero fun q _ => ?_
  by_contra hq
  have hq' : (st.code q).has t = true := by simpa using hq
  rw [h.lock_unique (hneed hq') hlock, hno] at hq'
  cases hq'

theorem number_eq_one (h : Accounts l n st) {t : Token} {p : Ptr}
    (hneed : ∀ {pt : PipePoint}, pt.has t = true → pt.has .lock = true)
    (hhas : (st.code p).has t = true) : st.number l t = 1 := by
  have hle : st.number l t ≤ st.number l .lock :=
    List.countP_mono_left fun p _ hp => hneed hp
  have := h.lock_le_one
  have := st.number_pos (h.mem_of_has hhas) hhas
  omega

theorem number_after (h : Accounts l n st) {st' : PipeState} {b : PipePoint}
    (hcode : st'.code = Function.update st.code st.current b) {t : Token} {k : Nat}
    (hk : k + ((st.code st.current).has t).toNat = st.number l t + (b.has t).toNat) :
    st'.number l t = k := by
  have := PipeState.number_update h.nodup h.current_mem hcode t
  omega

/-- A free slot is there when the interrupt takes a permit. -/
theorem room_of_takesPermit (h : Accounts l n st) (ht : st.TakesPermit) :
    st.stored.length < st.taken.length + st.pipe.bufferLen := by
  have := h.acquisitions_le st.pipe.semEmpty
  have := h.config.empty_count
  have := h.ledger.slot
  have := h.ledger.hole
  have := ht.2
  omega

/-- After a step of the lock's holder, only the holder can be where the lock is needed. -/
theorem holder_code (h : Accounts l n st) (hlock : (st.code st.current).has .lock = true)
    {code : Ptr → PipePoint} {b : PipePoint}
    (hcode : code = Function.update st.code st.current b) {p : Ptr} {pt : PipePoint}
    (hp : code p = pt) (hneed : pt.has .lock = true) : b = pt := by
  by_cases hpc : p = st.current
  · rw [hcode, hpc, Function.update_self] at hp
    exact hp
  · rw [hcode, Function.update_of_ne hpc] at hp
    exact absurd (h.lock_unique (by rw [hp, hneed]) hlock) hpc

end Accounts

structure Ring (l : List Ptr) (st : PipeState) : Prop where
  readPos : st.pipe.readPos = (st.taken.length - st.number l .move) % st.pipe.bufferLen
  writePos : st.pipe.writePos = (st.stored.length - st.number l .advance) % st.pipe.bufferLen
  log : RingLog st.pipe.buffer st.pipe.bufferLen (st.stored.map Stored.byte) st.taken.length
  slots : ∀ j e, st.stored[j]? = some e → e.slot = j % st.pipe.bufferLen
  taken : st.taken = (st.stored.map Stored.byte).take st.taken.length
  pendingStore : ∀ p w slot, st.code p = .writeStore w slot →
    slot = st.stored.length % st.pipe.bufferLen
  pendingSet : ∀ p w v, st.code p = .writeSet w v →
    v = (st.stored.length - 1) % st.pipe.bufferLen

namespace Ring

variable {l : List Ptr} {n : Ptr → Int} {st st' : PipeState}

/-- A step that changes neither the buffer nor the positions nor the records. -/
theorem keep (h : Ring l st) (hpipe : st'.pipe = st.pipe) (hstored : st'.stored = st.stored)
    (htaken : st'.taken = st.taken) (hmove : st'.number l .move = st.number l .move)
    (hadvance : st'.number l .advance = st.number l .advance)
    (hstore : ∀ p w slot, st'.code p = .writeStore w slot →
      slot = st.stored.length % st.pipe.bufferLen)
    (hset : ∀ p w v, st'.code p = .writeSet w v →
      v = (st.stored.length - 1) % st.pipe.bufferLen) : Ring l st' := by
  obtain ⟨h₁, h₂, h₃, h₄, h₅, _, _⟩ := h
  refine ⟨?_, ?_, ?_, ?_, ?_, ?_, ?_⟩ <;> simp only [hpipe, hstored, htaken, hmove, hadvance] <;>
    assumption

theorem sameCode (h : Ring l st) (hpipe : st'.pipe = st.pipe) (hstored : st'.stored = st.stored)
    (htaken : st'.taken = st.taken) (hcode : st'.code = st.code) : Ring l st' :=
  h.keep hpipe hstored htaken (PipeState.number_congr hcode _) (PipeState.number_congr hcode _)
    (fun p w slot hp => h.pendingStore p w slot (by rw [← hcode, hp]))
    (fun p w v hp => h.pendingSet p w v (by rw [← hcode, hp]))

/-- The current process moves on to `b`, outside the updates of the positions. -/
theorem move (h : Ring l st) (ha : Accounts l n st) {b : PipePoint} (hpipe : st'.pipe = st.pipe)
    (hstored : st'.stored = st.stored) (htaken : st'.taken = st.taken)
    (hcode : st'.code = Function.update st.code st.current b)
    (hmove : b.has .move = (st.code st.current).has .move)
    (hadvance : b.has .advance = (st.code st.current).has .advance)
    (hstore : ∀ w slot, b = .writeStore w slot → slot = st.stored.length % st.pipe.bufferLen)
    (hset : ∀ w v, b = .writeSet w v → v = (st.stored.length - 1) % st.pipe.bufferLen) :
    Ring l st' := by
  have hn := PipeState.number_update ha.nodup ha.current_mem hcode
  refine h.keep hpipe hstored htaken ?_ ?_ ?_ ?_
  · have := hn .move
    rw [hmove] at this
    omega
  · have := hn .advance
    rw [hadvance] at this
    omega
  · intro p w slot hp
    by_cases hpc : p = st.current
    · subst hpc
      rw [hcode, Function.update_self] at hp
      exact hstore w slot hp
    · rw [hcode, Function.update_of_ne hpc] at hp
      exact h.pendingStore p w slot hp
  · intro p w v hp
    by_cases hpc : p = st.current
    · subst hpc
      rw [hcode, Function.update_self] at hp
      exact hset w v hp
    · rw [hcode, Function.update_of_ne hpc] at hp
      exact h.pendingSet p w v hp

/-- The record of one more byte in the next slot. -/
theorem slots_append (h : Ring l st) (writer : Option Nat) (byte : UInt8) (j : Nat) (e : Stored)
    (he : (st.stored ++ [⟨writer, st.stored.length % st.pipe.bufferLen, byte⟩])[j]? = some e) :
    e.slot = j % st.pipe.bufferLen := by
  rcases Nat.lt_or_ge j st.stored.length with hlt | hge
  · rw [List.getElem?_append_left hlt] at he
    exact h.slots j e he
  · rw [List.getElem?_append_right hge] at he
    have hj : j = st.stored.length := by
      have := (List.getElem?_eq_some_iff.mp he).1
      simp at this
      omega
    subst hj
    simp only [Nat.sub_self, List.getElem?_cons_zero, Option.some.injEq] at he
    rw [← he]

theorem taken_append (h : Ring l st) (hle : st.taken.length ≤ st.stored.length) (e : Stored) :
    st.taken = ((st.stored ++ [e]).map Stored.byte).take st.taken.length := by
  rw [List.map_append, List.take_append_of_le_length (by simpa using hle)]
  exact h.taken

/-- `p->buffer[slot] = data[i]`, under the lock. -/
theorem store (h : Ring l st) (ha : Accounts l n st) {w : WriteCall} {slot : Nat}
    {writer : Option Nat} {byte : UInt8} (hcode : st.code st.current = .writeStore w slot)
    (hcode' : st'.code = Function.update st.code st.current (.writeLoad w))
    (hpipe : st'.pipe = { st.pipe with buffer := Function.update st.pipe.buffer slot byte })
    (hstored : st'.stored = st.stored ++ [⟨writer, slot, byte⟩])
    (htaken : st'.taken = st.taken) : Ring l st' := by
  have hslot := h.pendingStore _ w slot hcode
  have hlock : (st.code st.current).has .lock = true := by rw [hcode]; rfl
  have hadv : st.number l .advance = 0 := ha.number_eq_zero PipePoint.lock_of_advance hlock
    (by rw [hcode]; rfl)
  have hadv' : st'.number l .advance = 1 := ha.number_after hcode' (by rw [hadv, hcode]; rfl)
  have hmove' : st'.number l .move = st.number l .move :=
    ha.number_after hcode' (by rw [hcode]; rfl)
  have hle := ha.taken_le
  have hroom : st.stored.length < st.taken.length + st.pipe.bufferLen := by
    have := ha.unread_le
    have := st.number_pos (l := l) ha.current_mem (t := .slot) (by rw [hcode]; rfl)
    omega
  subst hslot
  constructor
  · simpa [hpipe, htaken, hmove'] using h.readPos
  · simpa [hpipe, hstored, hadv', hadv] using h.writePos
  · have := h.log.store (by simpa using hroom) byte
    simpa [hpipe, hstored, htaken] using this
  · simpa [hpipe, hstored] using h.slots_append writer byte
  · rw [hstored, htaken]
    exact h.taken_append (by omega) _
  · intro p w' slot' hp
    cases ha.holder_code hlock hcode' hp rfl
  · intro p w' v hp
    cases ha.holder_code hlock hcode' hp rfl

/-- `p->write_pos = (p->write_pos + 1) % p->buffer_len`, under the lock. -/
theorem set (h : Ring l st) (ha : Accounts l n st) {w : WriteCall} {v : Nat}
    (hcode : st.code st.current = .writeSet w v)
    (hcode' : st'.code = Function.update st.code st.current (.writeUnlock w))
    (hpipe : st'.pipe = { st.pipe with writePos := (v + 1) % st.pipe.bufferLen })
    (hstored : st'.stored = st.stored) (htaken : st'.taken = st.taken) : Ring l st' := by
  have hv := h.pendingSet _ w v hcode
  have hlock : (st.code st.current).has .lock = true := by rw [hcode]; rfl
  have hadv := ha.number_eq_one PipePoint.lock_of_advance (p := st.current) (by rw [hcode]; rfl)
  have hadv' : st'.number l .advance = 0 := ha.number_after hcode' (by rw [hadv, hcode]; rfl)
  have hmove' : st'.number l .move = st.number l .move :=
    ha.number_after hcode' (by rw [hcode]; rfl)
  have hpos : 0 < st.stored.length := by
    have := ha.taken_le
    have := st.number_pos (l := l) ha.current_mem (t := .byte) (by rw [hcode]; rfl)
    omega
  constructor
  · simpa [hpipe, htaken, hmove'] using h.readPos
  · simp [hpipe, hstored, hadv', hv, Nat.sub_add_cancel hpos]
  · simpa [hpipe, hstored, htaken] using h.log
  · simpa [hpipe, hstored] using h.slots
  · rw [hstored, htaken]
    exact h.taken
  · intro p w' slot' hp
    cases ha.holder_code hlock hcode' hp rfl
  · intro p w' v' hp
    cases ha.holder_code hlock hcode' hp rfl

/-- A process about to read finds an unread byte at `read_pos`. -/
theorem load_ready (h : Ring l st) (ha : Accounts l n st) {p : Ptr} {r : ReadCall}
    (hcode : st.code p = .readLoad r) : st.taken.length < st.stored.length ∧
      st.pipe.readPos = st.taken.length % st.pipe.bufferLen := by
  have hclaim : (st.code p).has .claim = true := by rw [hcode]; rfl
  have hlock : (st.code p).has .lock = true := by rw [hcode]; rfl
  have hpos := st.number_pos (ha.mem_of_has hclaim) hclaim
  have hle := ha.taken_le
  have hmove := ha.number_eq_zero PipePoint.lock_of_move hlock (by rw [hcode]; rfl)
  refine ⟨by omega, ?_⟩
  rw [h.readPos, hmove, Nat.sub_zero]

/-- `out[i] = p->buffer[p->read_pos]`, under the lock. -/
theorem load (h : Ring l st) (ha : Accounts l n st) {r r' : ReadCall}
    (hcode : st.code st.current = .readLoad r)
    (hcode' : st'.code = Function.update st.code st.current (.readMove r'))
    (hpipe : st'.pipe = st.pipe) (hstored : st'.stored = st.stored)
    (htaken : st'.taken = st.taken ++ [st.pipe.buffer st.pipe.readPos]) : Ring l st' := by
  obtain ⟨hlt, hread⟩ := h.load_ready ha hcode
  have hlock : (st.code st.current).has .lock = true := by rw [hcode]; rfl
  have hmove := ha.number_eq_zero PipePoint.lock_of_move hlock (by rw [hcode]; rfl)
  have hmove' : st'.number l .move = 1 := ha.number_after hcode' (by rw [hmove, hcode]; rfl)
  have hadv' : st'.number l .advance = st.number l .advance :=
    ha.number_after hcode' (by rw [hcode]; rfl)
  constructor
  · simpa [hpipe, htaken, hmove'] using hread
  · simpa [hpipe, hstored, hadv'] using h.writePos
  · rw [hpipe, hstored, htaken]
    exact h.log.advance (by simp)
  · simpa [hpipe, hstored] using h.slots
  · have := h.log.take_load (by simpa using hlt)
    rw [← h.taken, ← hread] at this
    simpa [hstored, htaken] using this
  · intro p w' slot' hp
    cases ha.holder_code hlock hcode' hp rfl
  · intro p w' v' hp
    cases ha.holder_code hlock hcode' hp rfl

/-- `p->read_pos = (p->read_pos + 1) % p->buffer_len`, under the lock. -/
theorem moveRead (h : Ring l st) (ha : Accounts l n st) {r : ReadCall}
    (hcode : st.code st.current = .readMove r)
    (hcode' : st'.code = Function.update st.code st.current (.readUnlock r))
    (hpipe : st'.pipe = { st.pipe with readPos := (st.pipe.readPos + 1) % st.pipe.bufferLen })
    (hstored : st'.stored = st.stored) (htaken : st'.taken = st.taken) : Ring l st' := by
  have hlock : (st.code st.current).has .lock = true := by rw [hcode]; rfl
  have hmove := ha.number_eq_one PipePoint.lock_of_move (p := st.current) (by rw [hcode]; rfl)
  have hmove' : st'.number l .move = 0 := ha.number_after hcode' (by rw [hmove, hcode]; rfl)
  have hadv' : st'.number l .advance = st.number l .advance :=
    ha.number_after hcode' (by rw [hcode]; rfl)
  have hpos : 0 < st.taken.length := by
    have := ha.ledger.hole
    have := st.number_pos (l := l) ha.current_mem (t := .hole) (by rw [hcode]; rfl)
    omega
  constructor
  · simp [hpipe, htaken, hmove', h.readPos, hmove, Nat.sub_add_cancel hpos]
  · simpa [hpipe, hstored, hadv'] using h.writePos
  · simpa [hpipe, hstored, htaken] using h.log
  · simpa [hpipe, hstored] using h.slots
  · rw [hstored, htaken]
    exact h.taken
  · intro p w' slot' hp
    cases ha.holder_code hlock hcode' hp rfl
  · intro p w' v' hp
    cases ha.holder_code hlock hcode' hp rfl

/-- A byte stored at `write_pos`, which moves on, while nobody is in an update. -/
theorem tryWrite (h : Ring l st) (hup : ∀ p, (st.code p).updating = false)
    (hle : st.taken.length ≤ st.stored.length)
    (hroom : st.stored.length < st.taken.length + st.pipe.bufferLen) {byte : UInt8}
    (hcode' : st'.code = st.code)
    (hpipe : st'.pipe = { st.pipe with
      buffer := Function.update st.pipe.buffer st.pipe.writePos byte
      writePos := (st.pipe.writePos + 1) % st.pipe.bufferLen })
    (hstored : st'.stored = st.stored ++ [⟨none, st.pipe.writePos, byte⟩])
    (htaken : st'.taken = st.taken) : Ring l st' := by
  have hadv : st.number l .advance = 0 :=
    tally_eq_zero fun p _ => PipePoint.advance_of_not_updating (hup p)
  have hwrite : st.pipe.writePos = st.stored.length % st.pipe.bufferLen := by
    rw [h.writePos, hadv, Nat.sub_zero]
  have hn := PipeState.number_congr (l := l) hcode'
  rw [hwrite] at hpipe hstored
  constructor
  · simpa [hpipe, htaken, hn] using h.readPos
  · simp [hpipe, hstored, hn, hadv]
  · have := h.log.store (by simpa using hroom) byte
    simpa [hpipe, hstored, htaken] using this
  · simpa [hpipe, hstored] using h.slots_append none byte
  · rw [hstored, htaken]
    exact h.taken_append hle _
  · intro p w slot hp
    have := hup p
    rw [hcode'] at hp
    simp [hp, PipePoint.updating] at this
  · intro p w v hp
    have := hup p
    rw [hcode'] at hp
    simp [hp, PipePoint.updating] at this

theorem keyboard (h : Ring l st) (ha : Accounts l n st) {byte : UInt8}
    (hclear : (PipeAction.keyboard byte).Clear l st) : Ring l (st.pipeTryWrite byte).1 := by
  by_cases ht : st.TakesPermit
  · rw [PipeState.pipeTryWrite_stored ha.queues ht]
    refine h.tryWrite (fun p => ?_) ?_ (ha.room_of_takesPermit ht) rfl rfl rfl rfl
    · by_cases hp : p ∈ l
      · exact hclear ht p hp
      · exact PipePoint.not_updating_of_tokens (ha.members p hp)
    · have := ha.taken_le
      omega
  · rw [PipeState.pipeTryWrite_refused ht]
    exact h

/-- A statement that waits for a semaphore leaves the ring alone. -/
theorem waitOn (h : Ring l st) (ha : Accounts l n st) {s : Ptr}
    (hw : (st.code st.current).waitsOn st.pipe = some s) : Ring l (st.waitOn s) := by
  have hcur : (st.sem.wait s).current = st.current :=
    SemState.wait_current ha.queues (ha.wait_noWrap s)
  unfold PipeState.waitOn
  simp only
  split
  · refine h.move ha rfl rfl rfl (PipeState.goto_code hcur _) ?_ ?_ ?_ ?_ <;> cases hpt : st.code st.current <;>
      simp_all [PipePoint.waitsOn, PipePoint.afterWait, PipePoint.has, PipePoint.tokens]
  · exact h.sameCode rfl rfl rfl rfl

theorem signalOn (h : Ring l st) (ha : Accounts l n st) {s : Ptr} {b : PipePoint}
    (hnw : st.sem.count s + 1 < 0x80000000)
    (hmove : b.has .move = (st.code st.current).has .move)
    (hadvance : b.has .advance = (st.code st.current).has .advance)
    (hstore : ∀ w slot, b ≠ .writeStore w slot) (hset : ∀ w v, b ≠ .writeSet w v) :
    Ring l (st.signalOn s b) := by
  have hcur : (st.sem.signal (some st.current) s).current = st.current :=
    SemState.signal_current ha.queues _ hnw
  exact h.move ha rfl rfl rfl (PipeState.goto_code hcur b) hmove hadvance (fun w slot hb => absurd hb (hstore w slot))
    fun w v hb => absurd hb (hset w v)

/-- Moving on, where neither place is in an update of a position. -/
theorem goto (h : Ring l st) (ha : Accounts l n st) {b : PipePoint}
    (hpipe : st'.pipe = st.pipe) (hstored : st'.stored = st.stored)
    (htaken : st'.taken = st.taken) (hcode : st'.code = Function.update st.code st.current b)
    (hmove : b.has .move = (st.code st.current).has .move)
    (hadvance : b.has .advance = (st.code st.current).has .advance)
    (hup : b.updating = false) : Ring l st' := by
  refine h.move ha hpipe hstored htaken hcode hmove hadvance ?_ ?_
  · rintro w slot rfl
    cases hup
  · rintro w v rfl
    cases hup

theorem statement (h : Ring l st) (ha : Accounts l n st)
    (hs : st.statement (st.code st.current) = some st') : Ring l st' := by
  cases hcode : st.code st.current with
  | idle result => simp [hcode, PipeState.statement] at hs
  | writeWait w =>
      simp only [hcode, PipeState.statement] at hs
      split at hs
      · cases hs
        exact h.waitOn ha (by rw [hcode]; rfl)
      · cases hs
        exact h.goto ha rfl rfl rfl rfl (by rw [hcode]; rfl) (by rw [hcode]; rfl) rfl
  | writeCheck w =>
      simp only [hcode, PipeState.statement] at hs
      split at hs <;> cases hs <;>
        exact h.goto ha rfl rfl rfl rfl (by rw [hcode]; rfl) (by rw [hcode]; rfl) rfl
  | writeLock w =>
      simp only [hcode, PipeState.statement, Option.some.injEq] at hs
      subst hs
      exact h.waitOn ha (by rw [hcode]; rfl)
  | writeSlot w =>
      simp only [hcode, PipeState.statement, Option.some.injEq] at hs
      subst hs
      have hadv := ha.number_eq_zero PipePoint.lock_of_advance (p := st.current)
        (by rw [hcode]; rfl) (by rw [hcode]; rfl)
      refine h.move ha rfl rfl rfl rfl (by rw [hcode]; rfl) (by rw [hcode]; rfl) ?_ ?_
      · rintro w' slot hw
        cases hw
        rw [h.writePos, hadv, Nat.sub_zero]
      · rintro w' v hw
        cases hw
  | writeStore w slot =>
      simp only [hcode, PipeState.statement, Option.some.injEq] at hs
      subst hs
      exact h.store ha hcode rfl rfl rfl rfl
  | writeLoad w =>
      simp only [hcode, PipeState.statement, Option.some.injEq] at hs
      subst hs
      have hadv := ha.number_eq_one PipePoint.lock_of_advance (p := st.current)
        (by rw [hcode]; rfl)
      refine h.move ha rfl rfl rfl rfl (by rw [hcode]; rfl) (by rw [hcode]; rfl) ?_ ?_
      · rintro w' slot hw
        cases hw
      · rintro w' v hw
        cases hw
        rw [h.writePos, hadv]
  | writeSet w v =>
      simp only [hcode, PipeState.statement, Option.some.injEq] at hs
      subst hs
      exact h.set ha hcode rfl rfl rfl rfl
  | writeUnlock w =>
      simp only [hcode, PipeState.statement, Option.some.injEq] at hs
      subst hs
      exact h.signalOn ha (ha.lock_noWrap (by rw [hcode]; rfl)) (by rw [hcode]; rfl)
        (by rw [hcode]; rfl) (by simp) (by simp)
  | writeSignal w =>
      simp only [hcode, PipeState.statement, Option.some.injEq] at hs
      subst hs
      exact h.signalOn ha (ha.full_noWrap (by rw [hcode]; rfl)) (by rw [hcode]; rfl)
        (by rw [hcode]; rfl) (by simp) (by simp)
  | readWait r =>
      simp only [hcode, PipeState.statement, Option.some.injEq] at hs
      subst hs
      exact h.waitOn ha (by rw [hcode]; rfl)
  | readLock r =>
      simp only [hcode, PipeState.statement, Option.some.injEq] at hs
      subst hs
      exact h.waitOn ha (by rw [hcode]; rfl)
  | readLoad r =>
      simp only [hcode, PipeState.statement, Option.some.injEq] at hs
      subst hs
      exact h.load ha hcode rfl rfl rfl rfl
  | readMove r =>
      simp only [hcode, PipeState.statement, Option.some.injEq] at hs
      subst hs
      exact h.moveRead ha hcode rfl rfl rfl rfl
  | readUnlock r =>
      simp only [hcode, PipeState.statement, Option.some.injEq] at hs
      subst hs
      exact h.signalOn ha (ha.lock_noWrap (by rw [hcode]; rfl)) (by rw [hcode]; rfl)
        (by rw [hcode]; rfl) (by simp) (by simp)
  | readSignal r =>
      simp only [hcode, PipeState.statement, Option.some.injEq] at hs
      subst hs
      exact h.signalOn ha (ha.empty_noWrap (by rw [hcode]; rfl)) (by rw [hcode]; rfl)
        (by rw [hcode]; rfl) (by simp) (by simp)
  | readNext r =>
      simp only [hcode, PipeState.statement] at hs
      split at hs
      · have hcur : (st.sem.trywait (some st.current) st.pipe.semFull).1.current = st.current := by
          by_cases hpos : 0 < st.sem.count st.pipe.semFull
          · rw [SemState.trywait_of_pos ha.queues hpos]
            rfl
          · rw [SemState.trywait_of_nonpos (Int.not_lt.mp hpos)]
            rfl
        cases hs
        split <;> exact h.goto ha rfl rfl rfl (PipeState.goto_code hcur _) (by rw [hcode]; rfl)
          (by rw [hcode]; rfl) rfl
      · cases hs
        exact h.goto ha rfl rfl rfl rfl (by rw [hcode]; rfl) (by rw [hcode]; rfl) rfl

theorem call (h : Ring l st) (ha : Accounts l n st) {result : Option Int}
    (hcode : st.code st.current = .idle result) :
    (∀ data, Ring l (st.pipeWrite data)) ∧ ∀ len, Ring l (st.pipeRead len) := by
  refine ⟨fun data => ?_, fun len => ?_⟩
  · unfold PipeState.pipeWrite
    split <;> exact h.goto ha rfl rfl rfl rfl (by rw [hcode]; rfl) (by rw [hcode]; rfl) rfl
  · unfold PipeState.pipeRead
    repeat' split
    all_goals exact h.goto ha rfl rfl rfl rfl (by rw [hcode]; rfl) (by rw [hcode]; rfl) rfl

end Ring

theorem pipeMachine_ring {fuel : Nat} {l : List Ptr} {n : Ptr → Int} {st st' : PipeState}
    {a : PipeAction} (h : Ring l st) (ha : Accounts l n st) (hclear : a.Clear l st)
    (hs : (pipeMachine fuel).step st a = some st') : Ring l st' := by
  cases a with
  | callWrite data =>
      simp only [pipeMachine] at hs
      split at hs
      · rename_i result hout hcode
        cases hs
        exact (h.call ha hcode).1 data
      · cases hs
  | callRead len =>
      simp only [pipeMachine] at hs
      split at hs
      · rename_i result hout hcode
        cases hs
        exact (h.call ha hcode).2 len
      · cases hs
  | run context =>
      simp only [pipeMachine] at hs
      split at hs
      · rename_i s hpt
        obtain ⟨sem, hsem, rfl⟩ := Option.map_eq_some_iff.mp hs
        exact h.sameCode rfl rfl rfl rfl
      · rename_i s hpt
        cases hs
        have hw := ha.link st.current s (by simp [hpt])
        refine h.move ha rfl rfl rfl rfl ?_ ?_ ?_ ?_ <;> cases hc : st.code st.current <;>
          simp_all [PipePoint.waitsOn, PipePoint.afterWait, PipePoint.has, PipePoint.tokens]
      · exact h.statement ha hs
  | tick context =>
      obtain ⟨sem, hsem, rfl⟩ := Option.map_eq_some_iff.mp hs
      exact h.sameCode rfl rfl rfl rfl
  | keyboard byte =>
      cases hs
      exact h.keyboard ha hclear

end BayosKernel
