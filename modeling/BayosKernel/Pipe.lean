import BayosKernel.Semaphore

/-!
The byte pipe of `pipe.c` as a machine: any number of processes inside
`pipe_write` and `pipe_read`, and the keyboard interrupt running
`pipe_try_write`, on one pipe.

Every access to `write_pos`, `read_pos` and the buffer is a step of its own, in
the order in which unoptimised code makes them, so that a tick or an interrupt
can fall between the evaluation of `p->buffer[p->write_pos]`, the store, the
load of `write_pos` and its update.
-/

namespace BayosKernel

open Foundation

structure Pipe where
  buffer : Nat → UInt8
  bufferLen : Nat
  readPos : Nat
  writePos : Nat
  readRefs : Int
  writeRefs : Int
  bufLock : Ptr
  semEmpty : Ptr
  semFull : Ptr

def sizeofSemaphore : Nat := 24

/-- `pipe_create` once its three allocations have succeeded: `content` is what
the new buffer holds, `s` the array of the three semaphores. -/
def pipeCreate (k : Kernel) (content : Nat → UInt8) (bufferLen : Nat) (s : Ptr) : Kernel × Pipe :=
  let k := k.setSem s fun _ => semCreate 1
  let k := k.setSem (s + sizeofSemaphore) fun _ => semCreate (int32 bufferLen)
  let k := k.setSem (s + 2 * sizeofSemaphore) fun _ => semCreate 0
  (k, { buffer := content, bufferLen := bufferLen, readPos := 0, writePos := 0,
        readRefs := 1, writeRefs := 1, bufLock := s, semEmpty := s + sizeofSemaphore,
        semFull := s + 2 * sizeofSemaphore })

/-- A call of `pipe_write` in its loop; `call` numbers the calls. -/
structure WriteCall where
  call : Nat
  data : List UInt8
  index : Nat
  deriving DecidableEq, Repr

/-- A call of `pipe_read` in its loop; `out` is the part of the caller's buffer
that has been filled. -/
structure ReadCall where
  len : Nat
  out : List UInt8
  deriving DecidableEq, Repr

/-- The statement a process executes next. At the three waits the process may
also be inside `sem_wait`. -/
inductive PipePoint where
  | idle (result : Option Int)
  | writeWait (w : WriteCall)
  | writeCheck (w : WriteCall)
  | writeLock (w : WriteCall)
  | writeSlot (w : WriteCall)
  | writeStore (w : WriteCall) (slot : Nat)
  | writeLoad (w : WriteCall)
  | writeSet (w : WriteCall) (v : Nat)
  | writeUnlock (w : WriteCall)
  | writeSignal (w : WriteCall)
  | readWait (r : ReadCall)
  | readLock (r : ReadCall)
  | readLoad (r : ReadCall)
  | readMove (r : ReadCall)
  | readUnlock (r : ReadCall)
  | readSignal (r : ReadCall)
  | readNext (r : ReadCall)
  deriving DecidableEq, Repr

/-- The semaphore whose `sem_wait` the statement is. -/
def PipePoint.waitsOn (p : Pipe) : PipePoint → Option Ptr
  | .writeWait _ => some p.semEmpty
  | .writeLock _ | .readLock _ => some p.bufLock
  | .readWait _ => some p.semFull
  | _ => none

/-- Where the code goes on when the `sem_wait` of the statement returns. -/
def PipePoint.afterWait : PipePoint → PipePoint
  | .writeWait w => .writeCheck w
  | .writeLock w => .writeSlot w
  | .readWait r => .readLock r
  | .readLock r => .readLoad r
  | pt => pt

/-- One store into the ring: which call made it (`none` for the keyboard), into
which slot, and the byte. -/
structure Stored where
  writer : Option Nat
  slot : Nat
  byte : UInt8
  deriving DecidableEq, Repr

/-- `calls` holds the data of every `pipe_write` call, by call number; `stored`
and `taken` record the buffer writes and the buffer reads, the oldest first. -/
structure PipeState where
  sem : SemState
  pipe : Pipe
  code : Ptr → PipePoint
  calls : List (List UInt8)
  stored : List Stored
  taken : List UInt8

namespace PipeState

def current (st : PipeState) : Ptr := st.sem.current

def goto (st : PipeState) (pt : PipePoint) : PipeState :=
  { st with code := Function.update st.code st.current pt }

/-- `sem_wait(s)` in the code of a pipe: on if it returns at once. -/
def waitOn (st : PipeState) (s : Ptr) : PipeState :=
  let st' := { st with sem := st.sem.wait s }
  if st'.sem.point st.current = .outside then st'.goto (st.code st.current).afterWait else st'

def signalOn (st : PipeState) (s : Ptr) (pt : PipePoint) : PipeState :=
  goto { st with sem := st.sem.signal (some st.current) s } pt

/-- The statement `p->buffer[slot] = byte`. -/
def store (st : PipeState) (writer : Option Nat) (slot : Nat) (byte : UInt8) : PipeState :=
  { st with
    pipe := { st.pipe with buffer := Function.update st.pipe.buffer slot byte }
    stored := st.stored ++ [⟨writer, slot, byte⟩] }

def setWritePos (st : PipeState) (v : Nat) : PipeState :=
  { st with pipe := { st.pipe with writePos := v } }

/-- The call of `pipe_write` up to its loop. -/
def pipeWrite (st : PipeState) (data : List UInt8) : PipeState :=
  if st.pipe.readRefs = 0 then st.goto (.idle (some (-1)))
  else { st with calls := st.calls ++ [data] }.goto (.writeWait ⟨st.calls.length, data, 0⟩)

/-- The call of `pipe_read` up to its first `sem_wait`. -/
def pipeRead (st : PipeState) (len : Nat) : PipeState :=
  if len = 0 then st.goto (.idle (some 0))
  else if st.pipe.writeRefs = 0 ∧ st.sem.count st.pipe.semFull = 0 then st.goto (.idle (some 0))
  else st.goto (.readWait ⟨len, []⟩)

/-- `pipe_try_write`, which runs with interrupts disabled from end to end. -/
def pipeTryWrite (st : PipeState) (byte : UInt8) : PipeState × Int :=
  if st.pipe.readRefs = 0 then (st, -1)
  else
    let (sem, got) := st.sem.trywait none st.pipe.semEmpty
    let st := { st with sem := sem }
    if got = 0 then (st, 0)
    else
      let st := st.store none st.pipe.writePos byte
      let st := st.setWritePos ((st.pipe.writePos + 1) % st.pipe.bufferLen)
      ({ st with sem := st.sem.signal none st.pipe.semFull }, 1)

/-- The next statement of the current process, which is not inside `sem_wait`. -/
def statement (st : PipeState) : PipePoint → Option PipeState
  | .idle _ => none
  | .writeWait w =>
      if w.index < w.data.length then some (st.waitOn st.pipe.semEmpty)
      else some (st.goto (.idle (some (int32 w.data.length))))
  | .writeCheck w =>
      if st.pipe.readRefs = 0 then some (st.goto (.idle (some (int32 w.index))))
      else some (st.goto (.writeLock w))
  | .writeLock _ => some (st.waitOn st.pipe.bufLock)
  | .writeSlot w => some (st.goto (.writeStore w st.pipe.writePos))
  | .writeStore w slot =>
      some ((st.store (some w.call) slot (w.data.getD w.index 0)).goto (.writeLoad w))
  | .writeLoad w => some (st.goto (.writeSet w st.pipe.writePos))
  | .writeSet w v => some ((st.setWritePos ((v + 1) % st.pipe.bufferLen)).goto (.writeUnlock w))
  | .writeUnlock w => some (st.signalOn st.pipe.bufLock (.writeSignal w))
  | .writeSignal w =>
      some (st.signalOn st.pipe.semFull (.writeWait { w with index := w.index + 1 }))
  | .readWait _ => some (st.waitOn st.pipe.semFull)
  | .readLock _ => some (st.waitOn st.pipe.bufLock)
  | .readLoad r =>
      let byte := st.pipe.buffer st.pipe.readPos
      some ({ st with taken := st.taken ++ [byte] }.goto
        (.readMove { r with out := r.out ++ [byte] }))
  | .readMove r =>
      some ({ st with pipe := { st.pipe with
          readPos := (st.pipe.readPos + 1) % st.pipe.bufferLen } }.goto (.readUnlock r))
  | .readUnlock r => some (st.signalOn st.pipe.bufLock (.readSignal r))
  | .readSignal r => some (st.signalOn st.pipe.semEmpty (.readNext r))
  | .readNext r =>
      if r.out.length < r.len then
        let (sem, got) := st.sem.trywait (some st.current) st.pipe.semFull
        some (goto { st with sem := sem }
          (if got = 0 then .idle (some (int32 r.out.length)) else .readLock r))
      else some (st.goto (.idle (some (int32 r.out.length))))

end PipeState

inductive PipeAction where
  | callWrite (data : List UInt8)
  | callRead (len : Nat)
  | run (context : Ptr)
  | tick (context : Ptr)
  | keyboard (byte : UInt8)
  deriving DecidableEq, Repr

/-- `run` lets the current process execute its next statement, or the yield or
the return of the `sem_wait` it is in. -/
def pipeMachine (fuel : Nat) : Machine PipeState PipeAction where
  step st
    | .callWrite data =>
        match st.sem.point st.current, st.code st.current with
        | .outside, .idle _ => some (st.pipeWrite data)
        | _, _ => none
    | .callRead len =>
        match st.sem.point st.current, st.code st.current with
        | .outside, .idle _ => some (st.pipeRead len)
        | _, _ => none
    | .run context =>
        match st.sem.point st.current with
        | .beforeYield s =>
            (st.sem.yieldWait fuel s context).map fun sem => { st with sem := sem }
        | .inYield s =>
            some (PipeState.goto { st with sem := st.sem.resume s }
              (st.code st.current).afterWait)
        | .outside => st.statement (st.code st.current)
    | .tick context => (st.sem.switch fuel context).map fun sem => { st with sem := sem }
    | .keyboard byte => some (st.pipeTryWrite byte).1

end BayosKernel
