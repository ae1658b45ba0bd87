import BayosKernel.Pipe
import BayosKernel.SemaphorePermits

/-!
Permit accounting for a pipe.

Between two semaphore operations a process has permits in hand: a free slot it
may fill, a byte it has stored but not announced, a byte it may take, a slot it
has emptied but not given back, the lock. `Ledger` relates these to the totals
of the three semaphores and to the numbers of bytes stored and taken. Every
step of the machine keeps it, also a keyboard interrupt at the worst moment.
-/

namespace BayosKernel

open Foundation

namespace SemState

variable {st : SemState}

theorem wait_current (h : Queues st) {s : Ptr} (hnw : -0x80000000 ≤ st.count s - 1) :
    (st.wait s).current = st.current := by
  by_cases hpos : 0 < st.count s
  · rw [wait_of_pos h hpos]
    rfl
  · exact (wait_blocked h (Int.not_lt.mp hpos) hnw).sameList.current

theorem signal_current (h : Queues st) (who : Option Ptr) {s : Ptr}
    (hnw : st.count s + 1 < 0x80000000) : (st.signal who s).current = st.current := by
  by_cases hneg : st.count s < 0
  · obtain ⟨w, rest, _, ev⟩ := signal_woke h who hneg
    exact ev.sameList.current
  · rw [signal_of_nonneg (by omega) hnw]
    rfl

theorem signal_point (h : Queues st) (who : Option Ptr) {s : Ptr}
    (hnw : st.count s + 1 < 0x80000000) : (st.signal who s).point = st.point := by
  by_cases hneg : st.count s < 0
  · obtain ⟨w, rest, _, ev⟩ := signal_woke h who hneg
    exact ev.point
  · rw [signal_of_nonneg (by omega) hnw]

theorem signal_acquisitions (h : Queues st) (who : Option Ptr) {s : Ptr}
    (hnw : st.count s + 1 < 0x80000000) (t : Ptr) :
    acquisitions t (st.signal who s).history = acquisitions t st.history := by
  by_cases hneg : st.count s < 0
  · obtain ⟨w, rest, _, ev⟩ := signal_woke h who hneg
    simp [ev.history]
  · simp [signal_of_nonneg (Int.not_lt.mp hneg) hnw]

theorem signal_signals (h : Queues st) (who : Option Ptr) {s : Ptr}
    (hnw : st.count s + 1 < 0x80000000) (t : Ptr) :
    signals t (st.signal who s).history = signals t st.history + if s = t then 1 else 0 := by
  by_cases hneg : st.count s < 0
  · obtain ⟨w, rest, _, ev⟩ := signal_woke h who hneg
    simp [ev.history, signals_signalled]
  · simp [signal_of_nonneg (Int.not_lt.mp hneg) hnw, signals_signalled]

/-- `schedule` moves the current process and nothing else that is recorded. -/
structure Moved (st st' : SemState) : Prop where
  point : st'.point = st.point
  history : st'.history = st.history

theorem switch_moved {fuel : Nat} {context : Ptr} {st' : SemState}
    (h : st.switch fuel context = some st') : Moved st st' := by
  simp only [switch, Option.map_eq_some_iff] at h
  obtain ⟨r, _, rfl⟩ := h
  exact ⟨rfl, rfl⟩

theorem yieldWait_moved {fuel : Nat} {s context : Ptr} {st' : SemState}
    (h : st.yieldWait fuel s context = some st') :
    st'.point = Function.update st.point st.current (.inYield s) ∧ st'.history = st.history :=
  ⟨(switch_moved h).point, (switch_moved h).history⟩

end SemState

/-- What a process has in hand: a permit of `sem_empty` and nothing stored yet,
a stored byte `sem_full` was not signalled for, a permit of `sem_full` and
nothing read yet, a read byte `sem_empty` was not signalled for, `buf_lock`, a
pending update of `write_pos`, a pending update of `read_pos`. -/
inductive Token where
  | slot | byte | claim | hole | lock | advance | move
  deriving DecidableEq, Repr

def PipePoint.tokens : PipePoint → List Token
  | .writeCheck _ | .writeLock _ => [.slot]
  | .writeSlot _ | .writeStore _ _ => [.slot, .lock]
  | .writeLoad _ | .writeSet _ _ => [.byte, .lock, .advance]
  | .writeUnlock _ => [.byte, .lock]
  | .writeSignal _ => [.byte]
  | .readLock _ => [.claim]
  | .readLoad _ => [.claim, .lock]
  | .readMove _ => [.hole, .lock, .move]
  | .readUnlock _ => [.hole, .lock]
  | .readSignal _ => [.hole]
  | _ => []

theorem PipePoint.waitsOn_congr {p p' : Pipe}
    (h : (p'.semEmpty, p'.semFull, p'.bufLock) = (p.semEmpty, p.semFull, p.bufLock))
    (pt : PipePoint) : pt.waitsOn p' = pt.waitsOn p := by
  simp only [Prod.mk.injEq] at h
  cases pt <;> simp only [waitsOn, h]

theorem PipePoint.tokens_idle (result : Option Int) : (PipePoint.idle result).tokens = [] := rfl

def PipePoint.has (pt : PipePoint) (t : Token) : Bool := t ∈ pt.tokens

namespace PipeState

theorem sem_current (st : PipeState) : st.sem.current = st.current := rfl

/-- A semaphore operation does not change the current process. -/
theorem goto_code {st : PipeState} {sem : SemState} (h : sem.current = st.current)
    (b : PipePoint) :
    (goto { st with sem := sem } b).code = Function.update st.code st.current b := by
  change Function.update st.code sem.current b = _
  rw [h]

/-- How many processes of the list have the token. -/
def number (st : PipeState) (l : List Ptr) (t : Token) : Nat :=
  tally l fun p => (st.code p).has t

theorem number_update {st st' : PipeState} {l : List Ptr} (hl : l.Nodup) {c : Ptr} (hc : c ∈ l)
    {b : PipePoint} (h : st'.code = Function.update st.code c b) (t : Token) :
    st'.number l t + ((st.code c).has t).toNat = st.number l t + (b.has t).toNat := by
  have := tally_change hl hc (p := fun p => (st.code p).has t) (q := fun p => (st'.code p).has t)
    fun x _ hx => by simp [h, hx]
  simpa [number, h] using this

theorem number_congr {st st' : PipeState} {l : List Ptr} (h : st'.code = st.code) (t : Token) :
    st'.number l t = st.number l t := by
  simp only [number, h]

theorem number_pos {st : PipeState} {l : List Ptr} {p : Ptr} (hp : p ∈ l) {t : Token}
    (h : (st.code p).has t = true) : 0 < st.number l t :=
  tally_pos hp h

end PipeState

/-- The totals of the three semaphores against the bytes and the tokens. -/
structure Ledger (l : List Ptr) (st : PipeState) : Prop where
  slot : st.stored.length + st.number l .slot ≤ acquisitions st.pipe.semEmpty st.sem.history
  hole : signals st.pipe.semEmpty st.sem.history + st.number l .hole = st.taken.length
  claim : acquisitions st.pipe.semFull st.sem.history = st.taken.length + st.number l .claim
  byte : signals st.pipe.semFull st.sem.history + st.number l .byte = st.stored.length
  lock : acquisitions st.pipe.bufLock st.sem.history =
    signals st.pipe.bufLock st.sem.history + st.number l .lock

namespace Ledger

variable {l : List Ptr} {st st' : PipeState}

/-- The process `c` moves on to `b`; each total changes as the tokens say. -/
theorem move (h : Ledger l st) (hl : l.Nodup) {c : Ptr} (hc : c ∈ l) {b : PipePoint}
    (hcode : st'.code = Function.update st.code c b)
    (hslot : st'.stored.length + (b.has .slot).toNat +
        acquisitions st.pipe.semEmpty st.sem.history ≤
      st.stored.length + ((st.code c).has .slot).toNat +
        acquisitions st'.pipe.semEmpty st'.sem.history)
    (hhole : signals st'.pipe.semEmpty st'.sem.history + (b.has .hole).toNat + st.taken.length =
      signals st.pipe.semEmpty st.sem.history + ((st.code c).has .hole).toNat +
        st'.taken.length)
    (hclaim : acquisitions st'.pipe.semFull st'.sem.history + ((st.code c).has .claim).toNat +
        st.taken.length =
      acquisitions st.pipe.semFull st.sem.history + (b.has .claim).toNat + st'.taken.length)
    (hbyte : signals st'.pipe.semFull st'.sem.history + (b.has .byte).toNat + st.stored.length =
      signals st.pipe.semFull st.sem.history + ((st.code c).has .byte).toNat +
        st'.stored.length)
    (hlock : acquisitions st'.pipe.bufLock st'.sem.history + ((st.code c).has .lock).toNat +
        signals st.pipe.bufLock st.sem.history =
      acquisitions st.pipe.bufLock st.sem.history + (b.has .lock).toNat +
        signals st'.pipe.bufLock st'.sem.history) : Ledger l st' := by
  have hn := PipeState.number_update hl hc hcode
  obtain ⟨h₁, h₂, h₃, h₄, h₅⟩ := h
  refine ⟨?_, ?_, ?_, ?_, ?_⟩
  · have := hn .slot
    omega
  · have := hn .hole
    omega
  · have := hn .claim
    omega
  · have := hn .byte
    omega
  · have := hn .lock
    omega

/-- A step of the code that uses no semaphore, stores no byte and takes none. -/
theorem goto (h : Ledger l st) (hl : l.Nodup) (hc : st.current ∈ l) {b : PipePoint} {p : Pipe}
    (hpipe : (p.semEmpty, p.semFull, p.bufLock) =
      (st.pipe.semEmpty, st.pipe.semFull, st.pipe.bufLock)) {calls : List (List UInt8)}
    (hslot : b.has .slot = true → (st.code st.current).has .slot = true)
    (hsame : ∀ t ∈ [Token.hole, .claim, .byte, .lock], b.has t = (st.code st.current).has t) :
    Ledger l (PipeState.goto { st with pipe := p, calls := calls } b) := by
  simp only [Prod.mk.injEq] at hpipe
  obtain ⟨he, hf, hm⟩ := hpipe
  have hs : (b.has .slot).toNat ≤ ((st.code st.current).has .slot).toNat := by
    cases hb : b.has .slot
    · simp
    · simp [hslot hb]
  refine h.move hl hc rfl ?_ ?_ ?_ ?_ ?_ <;>
    simp only [PipeState.goto, he, hf, hm, hsame .hole (by simp), hsame .claim (by simp),
      hsame .byte (by simp), hsame .lock (by simp)]
  omega

/-- `sem_wait(s)` returns: the process takes what the statement waits for. -/
theorem acquire (h : Ledger l st) (hl : l.Nodup) (hc : st.current ∈ l) {s : Ptr}
    (hef : st.pipe.semEmpty ≠ st.pipe.semFull) (hem : st.pipe.semEmpty ≠ st.pipe.bufLock)
    (hfm : st.pipe.semFull ≠ st.pipe.bufLock)
    (hw : (st.code st.current).waitsOn st.pipe = some s) {sem : SemState}
    (hcur : sem.current = st.current)
    (hacq : ∀ t, acquisitions t sem.history =
      acquisitions t st.sem.history + if s = t then 1 else 0)
    (hsig : ∀ t, signals t sem.history = signals t st.sem.history) :
    Ledger l (PipeState.goto { st with sem := sem } (st.code st.current).afterWait) := by
  refine h.move hl hc (PipeState.goto_code hcur _) ?_ ?_ ?_ ?_ ?_ <;> simp only [PipeState.goto, hacq, hsig] <;>
    cases hpt : st.code st.current <;>
    simp only [hpt, PipePoint.waitsOn, Option.some.injEq, reduceCtorEq] at hw <;> subst hw <;>
    simp [PipePoint.afterWait, PipePoint.has, PipePoint.tokens, hef, hem, hfm, hef.symm,
      hem.symm, hfm.symm]; omega

/-- `sem_signal(s)`: the process gives back what the statement is about. -/
theorem give (h : Ledger l st) (hl : l.Nodup) (hc : st.current ∈ l) {s : Ptr} {b : PipePoint}
    (hef : st.pipe.semEmpty ≠ st.pipe.semFull) (hem : st.pipe.semEmpty ≠ st.pipe.bufLock)
    (hfm : st.pipe.semFull ≠ st.pipe.bufLock)
    (hgive : (∃ w, st.code st.current = .writeUnlock w ∧ s = st.pipe.bufLock ∧
        b = .writeSignal w) ∨
      (∃ w w', st.code st.current = .writeSignal w ∧ s = st.pipe.semFull ∧ b = .writeWait w') ∨
      (∃ r, st.code st.current = .readUnlock r ∧ s = st.pipe.bufLock ∧ b = .readSignal r) ∨
      ∃ r, st.code st.current = .readSignal r ∧ s = st.pipe.semEmpty ∧ b = .readNext r)
    {sem : SemState} (hcur : sem.current = st.current)
    (hacq : ∀ t, acquisitions t sem.history = acquisitions t st.sem.history)
    (hsig : ∀ t, signals t sem.history = signals t st.sem.history + if s = t then 1 else 0) :
    Ledger l (PipeState.goto { st with sem := sem } b) := by
  refine h.move hl hc (PipeState.goto_code hcur _) ?_ ?_ ?_ ?_ ?_ <;> simp only [PipeState.goto, hacq, hsig] <;>
    obtain ⟨w, hpt, rfl, rfl⟩ | ⟨w, w', hpt, rfl, rfl⟩ | ⟨r, hpt, rfl, rfl⟩ |
      ⟨r, hpt, rfl, rfl⟩ := hgive <;>
    simp [hpt, PipePoint.has, PipePoint.tokens, hef, hem, hfm, hef.symm, hem.symm, hfm.symm] <;>
    omega

/-- `pipe_try_write` has taken a permit, stored a byte and signalled. -/
theorem tryWrite (h : Ledger l st) (hef : st.pipe.semEmpty ≠ st.pipe.semFull)
    (hem : st.pipe.semEmpty ≠ st.pipe.bufLock) (hfm : st.pipe.semFull ≠ st.pipe.bufLock)
    (hcode : st'.code = st.code) (htaken : st'.taken = st.taken)
    (hpipe : (st'.pipe.semEmpty, st'.pipe.semFull, st'.pipe.bufLock) =
      (st.pipe.semEmpty, st.pipe.semFull, st.pipe.bufLock))
    (hstored : st'.stored.length = st.stored.length + 1)
    (hacq : ∀ t, acquisitions t st'.sem.history =
      acquisitions t st.sem.history + if st.pipe.semEmpty = t then 1 else 0)
    (hsig : ∀ t, signals t st'.sem.history =
      signals t st.sem.history + if st.pipe.semFull = t then 1 else 0) : Ledger l st' := by
  simp only [Prod.mk.injEq] at hpipe
  obtain ⟨he, hf, hm⟩ := hpipe
  have hn := PipeState.number_congr (l := l) hcode
  obtain ⟨h₁, h₂, h₃, h₄, h₅⟩ := h
  constructor <;> rw [hn] <;>
    simp [he, hf, hm, hacq, hsig, hstored, htaken, hef, hem, hfm, hef.symm] <;> omega

/-- The code and the records that `Ledger` is about are the same. -/
theorem congr (h : Ledger l st) (hcode : st'.code = st.code) (hstored : st'.stored = st.stored)
    (htaken : st'.taken = st.taken) (hhist : st'.sem.history = st.sem.history)
    (hpipe : (st'.pipe.semEmpty, st'.pipe.semFull, st'.pipe.bufLock) =
      (st.pipe.semEmpty, st.pipe.semFull, st.pipe.bufLock)) : Ledger l st' := by
  simp only [Prod.mk.injEq] at hpipe
  obtain ⟨he, hf, hm⟩ := hpipe
  have hn := PipeState.number_congr (l := l) hcode
  obtain ⟨h₁, h₂, h₃, h₄, h₅⟩ := h
  constructor <;> simp only [he, hf, hm, hn, hhist, hstored, htaken] <;> assumption

end Ledger

/-- What does not change in a run: three different semaphores, the length of
the buffer, the initial counts, and fewer processes than `int` has values. -/
structure PipeConfig (l : List Ptr) (n : Ptr → Int) (empty full lock : Ptr) (len : Nat) :
    Prop where
  empty_ne_full : empty ≠ full
  empty_ne_lock : empty ≠ lock
  full_ne_lock : full ≠ lock
  len_pos : 1 ≤ len
  len_lt : len < 0x80000000
  empty_count : n empty = len
  full_count : n full = 0
  lock_count : n lock = 1
  processes : l.length < 0x80000000

structure Accounts (l : List Ptr) (n : Ptr → Int) (st : PipeState) : Prop where
  queues : Queues st.sem
  currentOk : CurrentOk st.sem
  permits : Permits l n st.sem
  config : PipeConfig l n st.pipe.semEmpty st.pipe.semFull st.pipe.bufLock st.pipe.bufferLen
  link : ∀ p s, (st.sem.point p).Waits s → (st.code p).waitsOn st.pipe = some s
  members : ∀ p, p ∉ l → (st.code p).tokens = []
  ledger : Ledger l st

namespace Accounts

variable {l : List Ptr} {n : Ptr → Int} {st : PipeState}

theorem nodup (h : Accounts l n st) : l.Nodup := h.permits.listed.nodup

theorem current_mem (h : Accounts l n st) : st.current ∈ l := h.permits.current_mem

theorem mem_of_has (h : Accounts l n st) {p : Ptr} {t : Token} (ht : (st.code p).has t = true) :
    p ∈ l := by
  by_contra hp
  simp [PipePoint.has, h.members p hp] at ht

theorem acquisitions_le (h : Accounts l n st) (s : Ptr) :
    (acquisitions s st.sem.history : Int) + max 0 (st.sem.count s) ≤
      n s + signals s st.sem.history := by
  have := h.permits.balance s
  omega

/-- `buf_lock` excludes. -/
theorem lock_le_one (h : Accounts l n st) : st.number l .lock ≤ 1 := by
  have := h.acquisitions_le st.pipe.bufLock
  have := h.config.lock_count
  have := h.ledger.lock
  omega

theorem lock_unique (h : Accounts l n st) {p q : Ptr} (hp : (st.code p).has .lock = true)
    (hq : (st.code q).has .lock = true) : p = q :=
  tally_le_one_unique h.lock_le_one (h.mem_of_has hp) (h.mem_of_has hq) hp hq

/-- No more bytes are taken than were announced. -/
theorem taken_le (h : Accounts l n st) :
    st.taken.length + st.number l .claim + st.number l .byte ≤ st.stored.length := by
  have := h.acquisitions_le st.pipe.semFull
  have := h.config.full_count
  have := h.ledger.claim
  have := h.ledger.byte
  omega

/-- Bytes in the ring and free slots in hand fit in the buffer. -/
theorem unread_le (h : Accounts l n st) :
    st.stored.length + st.number l .slot + st.number l .hole ≤
      st.taken.length + st.pipe.bufferLen := by
  have := h.acquisitions_le st.pipe.semEmpty
  have := h.config.empty_count
  have := h.ledger.slot
  have := h.ledger.hole
  omega

theorem wait_noWrap (h : Accounts l n st) (s : Ptr) : -0x80000000 ≤ st.sem.count s - 1 := by
  have hsub : waiters s st.sem.history ⊆ l := fun p hp =>
    h.permits.inside_mem p fun hout => h.queues.not_mem_of_outside hout s hp
  have hle := (h.queues.nodup s).length_le_of_subset hsub
  have hlen := h.queues.length s
  have := h.config.processes
  omega

theorem empty_noWrap (h : Accounts l n st)
    (ht : (st.code st.current).has .hole = true) : st.sem.count st.pipe.semEmpty + 1 < 0x80000000 := by
  have := h.acquisitions_le st.pipe.semEmpty
  have := h.config.empty_count
  have := h.config.len_lt
  have := h.ledger.slot
  have := h.ledger.hole
  have := h.taken_le
  have := st.number_pos h.current_mem ht
  omega

theorem full_noWrap (h : Accounts l n st)
    (ht : (st.code st.current).has .byte = true) : st.sem.count st.pipe.semFull + 1 < 0x80000000 := by
  have := h.acquisitions_le st.pipe.semFull
  have := h.config.full_count
  have := h.config.len_lt
  have := h.ledger.claim
  have := h.ledger.byte
  have := h.unread_le
  have := st.number_pos h.current_mem ht
  omega

theorem lock_noWrap (h : Accounts l n st)
    (ht : (st.code st.current).has .lock = true) : st.sem.count st.pipe.bufLock + 1 < 0x80000000 := by
  have := h.acquisitions_le st.pipe.bufLock
  have := h.config.lock_count
  have := h.ledger.lock
  have := st.number_pos h.current_mem ht
  omega

theorem goto_members (h : Accounts l n st) {p : Ptr} (hp : p ∉ l) (b : PipePoint) :
    (Function.update st.code st.current b p).tokens = [] := by
  rw [Function.update_of_ne (by rintro rfl; exact hp h.current_mem)]
  exact h.members p hp

/-- A step of the code outside the semaphores; `code` and `records` say what it
does to the tokens. -/
theorem goto (h : Accounts l n st) (hout : st.sem.point st.current = .outside)
    {b : PipePoint} {st' : PipeState} (hsem : st'.sem = st.sem)
    (hcode : st'.code = Function.update st.code st.current b)
    (hpipe : (st'.pipe.semEmpty, st'.pipe.semFull, st'.pipe.bufLock) =
      (st.pipe.semEmpty, st.pipe.semFull, st.pipe.bufLock))
    (hlen : st'.pipe.bufferLen = st.pipe.bufferLen)
    (hledger : Ledger l st') : Accounts l n st' := by
  have hon := PipePoint.waitsOn_congr hpipe
  simp only [Prod.mk.injEq] at hpipe
  obtain ⟨he, hf, hm⟩ := hpipe
  refine ⟨?_, ?_, ?_, ?_, ?_, ?_, hledger⟩
  · rw [hsem]
    exact h.queues
  · rw [hsem]
    exact h.currentOk
  · rw [hsem]
    exact h.permits
  · rw [he, hf, hm, hlen]
    exact h.config
  · intro p s hs
    rw [hsem] at hs
    have hp : p ≠ st.current := by
      rintro rfl
      rw [hout] at hs
      exact Point.outside_waits s hs
    rw [hcode, Function.update_of_ne hp, hon]
    exact h.link p s hs
  · intro p hp
    rw [hcode]
    exact h.goto_members hp b

/-- The `sem_wait` of the statement, up to its return or its yield. -/
theorem waitOn (h : Accounts l n st) (hout : st.sem.point st.current = .outside) {s : Ptr}
    (hw : (st.code st.current).waitsOn st.pipe = some s) : Accounts l n (st.waitOn s) := by
  have hnw := h.wait_noWrap s
  have hcur : (st.sem.wait s).current = st.current := SemState.wait_current h.queues hnw
  by_cases hpos : 0 < st.sem.count s
  · have heq := SemState.wait_of_pos h.queues hpos
    have hpt : (st.sem.wait s).point = st.sem.point := by rw [heq]
    have hgo : st.waitOn s =
        PipeState.goto { st with sem := st.sem.wait s } (st.code st.current).afterWait := by
      simp [PipeState.waitOn, hpt, hout]
    have hcode : (st.waitOn s).code =
        Function.update st.code st.current (st.code st.current).afterWait := by
      rw [hgo]
      exact PipeState.goto_code hcur _
    rw [hgo] at hcode ⊢
    refine ⟨h.queues.wait h.currentOk hout hnw, h.currentOk.wait h.queues hnw,
      h.permits.wait h.queues hout hnw, h.config, ?_, ?_, ?_⟩
    · intro p t ht
      have hp : p ≠ st.current := by
        rintro rfl
        simp only [PipeState.goto, hpt, hout] at ht
        exact Point.outside_waits t ht
      rw [hcode, Function.update_of_ne hp]
      simp only [PipeState.goto, hpt] at ht
      exact h.link p t ht
    · intro p hp
      rw [hcode]
      exact h.goto_members hp _
    · refine h.ledger.acquire h.nodup h.current_mem h.config.empty_ne_full
        h.config.empty_ne_lock h.config.full_ne_lock hw hcur ?_ ?_
      · intro t
        rw [heq, acquisitions_acquired]
      · intro t
        rw [heq, signals_acquired]
  · have ev := SemState.wait_blocked h.queues (Int.not_lt.mp hpos) hnw
    have hstay : st.waitOn s = { st with sem := st.sem.wait s } := by
      simp [PipeState.waitOn, ev.point, PipeState.current]
    rw [hstay]
    refine ⟨h.queues.wait h.currentOk hout hnw, h.currentOk.wait h.queues hnw,
      h.permits.wait h.queues hout hnw, h.config, ?_, h.members, ?_⟩
    · intro p t ht
      simp only [ev.point, st.sem_current] at ht
      by_cases hp : p = st.current
      · rw [hp] at ht ⊢
        have hst : s = t := by simpa using ht
        rw [← hst]
        exact hw
      · rw [Function.update_of_ne hp] at ht
        exact h.link p t ht
    · have hl := h.ledger
      constructor <;> simp only [ev.history, acquisitions_blocked, signals_blocked]
      · exact hl.slot
      · exact hl.hole
      · exact hl.claim
      · exact hl.byte
      · exact hl.lock

theorem signalOn (h : Accounts l n st) (hout : st.sem.point st.current = .outside) {s : Ptr}
    {b : PipePoint} (hnw : st.sem.count s + 1 < 0x80000000)
    (hgive : (∃ w, st.code st.current = .writeUnlock w ∧ s = st.pipe.bufLock ∧
        b = .writeSignal w) ∨
      (∃ w w', st.code st.current = .writeSignal w ∧ s = st.pipe.semFull ∧ b = .writeWait w') ∨
      (∃ r, st.code st.current = .readUnlock r ∧ s = st.pipe.bufLock ∧ b = .readSignal r) ∨
      ∃ r, st.code st.current = .readSignal r ∧ s = st.pipe.semEmpty ∧ b = .readNext r) :
    Accounts l n (st.signalOn s b) := by
  have hcur : (st.sem.signal (some st.current) s).current = st.current :=
    SemState.signal_current h.queues _ hnw
  have hpt := SemState.signal_point h.queues (some st.current) hnw
  have hcode : (st.signalOn s b).code = Function.update st.code st.current b :=
    PipeState.goto_code hcur b
  refine ⟨h.queues.signal _ hnw, h.currentOk.signal h.queues _ hnw,
    h.permits.signal h.queues _ hnw, h.config, ?_, ?_, ?_⟩
  · intro p t ht
    simp only [PipeState.signalOn, PipeState.goto, hpt] at ht
    have hp : p ≠ st.current := by
      rintro rfl
      rw [hout] at ht
      exact Point.outside_waits t ht
    rw [hcode, Function.update_of_ne hp]
    exact h.link p t ht
  · intro p hp
    rw [hcode]
    exact h.goto_members hp b
  · exact h.ledger.give h.nodup h.current_mem h.config.empty_ne_full h.config.empty_ne_lock
      h.config.full_ne_lock hgive hcur (SemState.signal_acquisitions h.queues _ hnw)
      (SemState.signal_signals h.queues _ hnw)

/-- `sem_wait` returns after its yield. -/
theorem resume (h : Accounts l n st) {s : Ptr} (hpt : st.sem.point st.current = .inYield s) :
    Accounts l n
      (PipeState.goto { st with sem := st.sem.resume s } (st.code st.current).afterWait) := by
  have hw := h.link st.current s (by simp [hpt])
  have hq := h.queues.resume h.currentOk hpt
  refine ⟨hq, h.currentOk.resume hq, h.permits.resume h.currentOk hpt, h.config, ?_, ?_, ?_⟩
  · intro p t ht
    have hp : p ≠ st.current := by
      rintro rfl
      simp only [PipeState.goto, SemState.resume, PipeState.current, Function.update_self] at ht
      exact Point.outside_waits t ht
    simp only [PipeState.goto, SemState.resume, st.sem_current, Function.update_of_ne hp] at ht
    change (Function.update st.code st.current _ p).waitsOn st.pipe = some t
    rw [Function.update_of_ne hp]
    exact h.link p t ht
  · intro p hp
    exact h.goto_members hp _
  · exact h.ledger.acquire h.nodup h.current_mem h.config.empty_ne_full h.config.empty_ne_lock
      h.config.full_ne_lock hw rfl (fun t => acquisitions_acquired t s _ _)
      (fun t => signals_acquired t s _ _)

theorem switch (h : Accounts l n st) {fuel : Nat} {context : Ptr} {sem : SemState}
    (hs : st.sem.switch fuel context = some sem) : Accounts l n { st with sem := sem } := by
  have hm := SemState.switch_moved hs
  refine ⟨h.queues.switch hs, CurrentOk.switch hs, h.permits.switch hs, h.config, ?_, h.members,
    h.ledger.congr rfl rfl rfl hm.history rfl⟩
  intro p t ht
  simp only [hm.point] at ht
  exact h.link p t ht

theorem yieldWait (h : Accounts l n st) {fuel : Nat} {s context : Ptr} {sem : SemState}
    (hpt : st.sem.point st.current = .beforeYield s)
    (hs : st.sem.yieldWait fuel s context = some sem) : Accounts l n { st with sem := sem } := by
  obtain ⟨hp, hh⟩ := SemState.yieldWait_moved hs
  refine ⟨h.queues.yieldWait hpt hs, CurrentOk.switch hs, h.permits.yieldWait hpt hs, h.config,
    ?_, h.members, h.ledger.congr rfl rfl rfl hh rfl⟩
  intro p t ht
  simp only [hp, st.sem_current] at ht
  by_cases hpc : p = st.current
  · rw [hpc] at ht ⊢
    refine h.link _ t ?_
    rw [hpt]
    simpa using ht
  · rw [Function.update_of_ne hpc] at ht
    exact h.link p t ht

end Accounts

/-- An interrupt in this state stores its byte. -/
def PipeState.TakesPermit (st : PipeState) : Prop :=
  st.pipe.readRefs ≠ 0 ∧ 0 < st.sem.count st.pipe.semEmpty

instance (st : PipeState) : Decidable st.TakesPermit := by
  unfold PipeState.TakesPermit
  infer_instance

theorem PipeState.pipeTryWrite_refused {st : PipeState} (h : ¬st.TakesPermit) (byte : UInt8) :
    (st.pipeTryWrite byte).1 = st := by
  by_cases hr : st.pipe.readRefs = 0
  · simp [pipeTryWrite, hr]
  · have hc : st.sem.count st.pipe.semEmpty ≤ 0 := Int.not_lt.mp fun hc => h ⟨hr, hc⟩
    simp [pipeTryWrite, hr, SemState.trywait_of_nonpos hc]

theorem PipeState.pipeTryWrite_stored {st : PipeState} (hq : Queues st.sem) (h : st.TakesPermit)
    (byte : UInt8) :
    (st.pipeTryWrite byte).1 = { st with
      sem := (st.sem.trywait none st.pipe.semEmpty).1.signal none st.pipe.semFull
      pipe := { st.pipe with
        buffer := Function.update st.pipe.buffer st.pipe.writePos byte
        writePos := (st.pipe.writePos + 1) % st.pipe.bufferLen }
      stored := st.stored ++ [⟨none, st.pipe.writePos, byte⟩] } := by
  have hone : (st.sem.trywait none st.pipe.semEmpty).2 = 1 := by
    rw [SemState.trywait_of_pos hq h.2]
  simp [pipeTryWrite, h.1, hone, store, setWritePos]

namespace Accounts

variable {l : List Ptr} {n : Ptr → Int} {st : PipeState}

theorem trywait_full_noWrap (h : Accounts l n st) (ht : st.TakesPermit) :
    (st.sem.trywait none st.pipe.semEmpty).1.count st.pipe.semFull + 1 < 0x80000000 := by
  have hcount : (st.sem.trywait none st.pipe.semEmpty).1.count st.pipe.semFull =
      st.sem.count st.pipe.semFull := by
    rw [SemState.trywait_of_pos h.queues ht.2]
    simp only [SemState.count, Kernel.setSem_ne _ h.config.empty_ne_full.symm]
  have := h.acquisitions_le st.pipe.semFull
  have := h.acquisitions_le st.pipe.semEmpty
  have := h.config.full_count
  have := h.config.empty_count
  have := h.config.len_lt
  have := h.ledger.claim
  have := h.ledger.byte
  have := h.ledger.slot
  have := h.ledger.hole
  have := ht.2
  omega

/-- The interrupt takes a permit of `sem_empty`, stores and signals `sem_full`. -/
theorem keyboard (h : Accounts l n st) (byte : UInt8) :
    Accounts l n (st.pipeTryWrite byte).1 := by
  by_cases ht : st.TakesPermit
  · have hq := h.queues.trywait none st.pipe.semEmpty
    have hc := h.currentOk.trywait h.queues none st.pipe.semEmpty
    have hp := h.permits.trywait h.queues none st.pipe.semEmpty
    have hnw := h.trywait_full_noWrap ht
    have hpt := SemState.signal_point hq none hnw
    have hacq := SemState.signal_acquisitions hq none hnw
    have hsig := SemState.signal_signals hq none hnw
    have heq : st.sem.trywait none st.pipe.semEmpty = _ := SemState.trywait_of_pos h.queues ht.2
    simp only [heq, acquisitions_acquired] at hacq
    simp only [heq, signals_acquired] at hsig
    rw [PipeState.pipeTryWrite_stored h.queues ht]
    refine ⟨hq.signal _ hnw, hc.signal hq _ hnw, hp.signal hq _ hnw, h.config, ?_, h.members, ?_⟩
    · intro p t hw
      rw [heq] at hpt
      simp only [heq, hpt] at hw
      exact h.link p t hw
    · rw [heq]
      exact h.ledger.tryWrite h.config.empty_ne_full h.config.empty_ne_lock h.config.full_ne_lock
        rfl rfl rfl (by simp) hacq hsig
  · rw [PipeState.pipeTryWrite_refused ht]
    exact h

/-- The successful `sem_trywait(p->sem_full)` of `pipe_read`. -/
theorem trywaitFull (h : Accounts l n st) (hout : st.sem.point st.current = .outside)
    {r : ReadCall} (hcode : st.code st.current = .readNext r)
    (hpos : 0 < st.sem.count st.pipe.semFull) :
    Accounts l n (PipeState.goto
      { st with sem := (st.sem.trywait (some st.current) st.pipe.semFull).1 } (.readLock r)) := by
  have heq : st.sem.trywait (some st.current) st.pipe.semFull = _ :=
    SemState.trywait_of_pos h.queues hpos
  have hq := h.queues.trywait (some st.current) st.pipe.semFull
  have hc := h.currentOk.trywait h.queues (some st.current) st.pipe.semFull
  have hp := h.permits.trywait h.queues (some st.current) st.pipe.semFull
  have hef := h.config.empty_ne_full
  have hfm := h.config.full_ne_lock
  rw [heq] at hq hc hp ⊢
  refine ⟨hq, hc, hp, h.config, ?_, ?_, ?_⟩
  · intro p t ht
    have hpc : p ≠ st.current := by
      rintro rfl
      simp only [PipeState.goto, hout] at ht
      exact Point.outside_waits t ht
    change (Function.update st.code st.current _ p).waitsOn st.pipe = some t
    rw [Function.update_of_ne hpc]
    exact h.link p t ht
  · intro p hpl
    exact h.goto_members hpl _
  · refine h.ledger.move h.nodup h.current_mem rfl ?_ ?_ ?_ ?_ ?_ <;>
      simp [PipeState.goto, hcode, PipePoint.has, PipePoint.tokens, acquisitions_acquired,
        hef.symm, hfm]

/-- A statement that moves on and changes at most `calls` and the positions. -/
theorem move (h : Accounts l n st) (hout : st.sem.point st.current = .outside)
    {b : PipePoint} {p : Pipe} {calls : List (List UInt8)}
    (hpipe : (p.semEmpty, p.semFull, p.bufLock) =
      (st.pipe.semEmpty, st.pipe.semFull, st.pipe.bufLock))
    (hlen : p.bufferLen = st.pipe.bufferLen)
    (hslot : b.has .slot = true → (st.code st.current).has .slot = true)
    (hsame : ∀ t ∈ [Token.hole, .claim, .byte, .lock], b.has t = (st.code st.current).has t) :
    Accounts l n (PipeState.goto { st with pipe := p, calls := calls } b) :=
  h.goto hout rfl rfl hpipe hlen (h.ledger.goto h.nodup h.current_mem hpipe hslot hsame)

theorem statement (h : Accounts l n st) (hout : st.sem.point st.current = .outside)
    {st' : PipeState} (hs : st.statement (st.code st.current) = some st') :
    Accounts l n st' := by
  have hc := h.current_mem
  cases hcode : st.code st.current with
  | idle result => simp [hcode, PipeState.statement] at hs
  | writeWait w =>
      simp only [hcode, PipeState.statement] at hs
      split at hs
      · cases hs
        exact h.waitOn hout (by simp [hcode, PipePoint.waitsOn])
      · cases hs
        exact h.move hout rfl rfl (by simp [PipePoint.has, PipePoint.tokens])
          (by simp [hcode, PipePoint.has, PipePoint.tokens])
  | writeCheck w =>
      simp only [hcode, PipeState.statement] at hs
      split at hs <;> cases hs <;>
        exact h.move hout rfl rfl (by simp [hcode, PipePoint.has, PipePoint.tokens])
          (by simp [hcode, PipePoint.has, PipePoint.tokens])
  | writeLock w =>
      simp only [hcode, PipeState.statement, Option.some.injEq] at hs
      subst hs
      exact h.waitOn hout (by simp [hcode, PipePoint.waitsOn])
  | writeSlot w =>
      simp only [hcode, PipeState.statement, Option.some.injEq] at hs
      subst hs
      exact h.move hout rfl rfl (by simp [hcode, PipePoint.has, PipePoint.tokens])
        (by simp [hcode, PipePoint.has, PipePoint.tokens])
  | writeStore w slot =>
      simp only [hcode, PipeState.statement, Option.some.injEq] at hs
      subst hs
      refine h.goto (b := .writeLoad w) hout rfl rfl rfl rfl ?_
      refine h.ledger.move h.nodup hc rfl ?_ ?_ ?_ ?_ ?_ <;>
        simp [PipeState.goto, PipeState.store, hcode, PipePoint.has, PipePoint.tokens]
      omega
  | writeLoad w =>
      simp only [hcode, PipeState.statement, Option.some.injEq] at hs
      subst hs
      exact h.move hout rfl rfl (by simp [PipePoint.has, PipePoint.tokens])
        (by simp [hcode, PipePoint.has, PipePoint.tokens])
  | writeSet w v =>
      simp only [hcode, PipeState.statement, Option.some.injEq] at hs
      subst hs
      exact h.move hout rfl rfl (by simp [PipePoint.has, PipePoint.tokens])
        (by simp [hcode, PipePoint.has, PipePoint.tokens])
  | writeUnlock w =>
      simp only [hcode, PipeState.statement, Option.some.injEq] at hs
      subst hs
      exact h.signalOn hout (h.lock_noWrap (by simp [hcode, PipePoint.has, PipePoint.tokens]))
        (.inl ⟨w, hcode, rfl, rfl⟩)
  | writeSignal w =>
      simp only [hcode, PipeState.statement, Option.some.injEq] at hs
      subst hs
      exact h.signalOn hout (h.full_noWrap (by simp [hcode, PipePoint.has, PipePoint.tokens]))
        (.inr (.inl ⟨w, _, hcode, rfl, rfl⟩))
  | readWait r =>
      simp only [hcode, PipeState.statement, Option.some.injEq] at hs
      subst hs
      exact h.waitOn hout (by simp [hcode, PipePoint.waitsOn])
  | readLock r =>
      simp only [hcode, PipeState.statement, Option.some.injEq] at hs
      subst hs
      exact h.waitOn hout (by simp [hcode, PipePoint.waitsOn])
  | readLoad r =>
      simp only [hcode, PipeState.statement, Option.some.injEq] at hs
      subst hs
      refine h.goto (b := .readMove { r with out := r.out ++ [st.pipe.buffer st.pipe.readPos] })
        hout rfl rfl rfl rfl ?_
      refine h.ledger.move h.nodup hc rfl ?_ ?_ ?_ ?_ ?_ <;>
        simp [PipeState.goto, hcode, PipePoint.has, PipePoint.tokens]
      all_goals omega
  | readMove r =>
      simp only [hcode, PipeState.statement, Option.some.injEq] at hs
      subst hs
      exact h.move hout rfl rfl (by simp [PipePoint.has, PipePoint.tokens])
        (by simp [hcode, PipePoint.has, PipePoint.tokens])
  | readUnlock r =>
      simp only [hcode, PipeState.statement, Option.some.injEq] at hs
      subst hs
      exact h.signalOn hout (h.lock_noWrap (by simp [hcode, PipePoint.has, PipePoint.tokens]))
        (.inr (.inr (.inl ⟨r, hcode, rfl, rfl⟩)))
  | readSignal r =>
      simp only [hcode, PipeState.statement, Option.some.injEq] at hs
      subst hs
      exact h.signalOn hout (h.empty_noWrap (by simp [hcode, PipePoint.has, PipePoint.tokens]))
        (.inr (.inr (.inr ⟨r, hcode, rfl, rfl⟩)))
  | readNext r =>
      simp only [hcode, PipeState.statement] at hs
      split at hs
      · by_cases hpos : 0 < st.sem.count st.pipe.semFull
        · have hone : (st.sem.trywait (some st.current) st.pipe.semFull).2 = 1 := by
            rw [SemState.trywait_of_pos h.queues hpos]
          simp only [hone, Int.one_ne_zero, if_false, Option.some.injEq] at hs
          subst hs
          exact h.trywaitFull hout hcode hpos
        · simp only [SemState.trywait_of_nonpos (Int.not_lt.mp hpos), if_true,
            Option.some.injEq] at hs
          subst hs
          exact h.move hout rfl rfl (by simp [PipePoint.has, PipePoint.tokens])
            (by simp [hcode, PipePoint.has, PipePoint.tokens])
      · cases hs
        exact h.move hout rfl rfl (by simp [PipePoint.has, PipePoint.tokens])
          (by simp [hcode, PipePoint.has, PipePoint.tokens])

/-- The call of one of the two functions, up to its first semaphore. -/
theorem call (h : Accounts l n st) (hout : st.sem.point st.current = .outside)
    {result : Option Int} (hcode : st.code st.current = .idle result) :
    (∀ data, Accounts l n (st.pipeWrite data)) ∧ ∀ len, Accounts l n (st.pipeRead len) := by
  have hmove : ∀ (b : PipePoint) (calls : List (List UInt8)), b.tokens = [] →
      Accounts l n (PipeState.goto { st with calls := calls } b) := fun b calls hb =>
    h.move hout rfl rfl (by simp [PipePoint.has, hb])
      (by simp [hcode, PipePoint.has, hb, PipePoint.tokens_idle])
  refine ⟨fun data => ?_, fun len => ?_⟩
  · unfold PipeState.pipeWrite
    split
    · exact hmove _ st.calls rfl
    · exact hmove _ _ rfl
  · unfold PipeState.pipeRead
    repeat' split
    all_goals exact hmove _ st.calls rfl

end Accounts

/-- One step of the machine keeps the accounts. -/
theorem pipeMachine_accounts {fuel : Nat} {l : List Ptr} {n : Ptr → Int} {st st' : PipeState}
    {a : PipeAction} (h : Accounts l n st) (hs : (pipeMachine fuel).step st a = some st') :
    Accounts l n st' := by
  cases a with
  | callWrite data =>
      simp only [pipeMachine] at hs
      split at hs
      · rename_i result hout hcode
        cases hs
        exact (h.call hout hcode).1 data
      · cases hs
  | callRead len =>
      simp only [pipeMachine] at hs
      split at hs
      · rename_i result hout hcode
        cases hs
        exact (h.call hout hcode).2 len
      · cases hs
  | run context =>
      simp only [pipeMachine] at hs
      split at hs
      · rename_i s hpt
        obtain ⟨sem, hsem, rfl⟩ := Option.map_eq_some_iff.mp hs
        exact h.yieldWait hpt hsem
      · rename_i s hpt
        cases hs
        exact h.resume hpt
      · rename_i hout
        exact h.statement hout hs
  | tick context =>
      obtain ⟨sem, hsem, rfl⟩ := Option.map_eq_some_iff.mp hs
      exact h.switch hsem
  | keyboard byte =>
      cases hs
      exact h.keyboard byte

end BayosKernel
