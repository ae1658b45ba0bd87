import BayosKernel.PipeFifo

/-!
`keyboard_handler` and its pipe, from the scancodes to the bytes that the processes read.

Nothing but the interrupt writes to the pipe here: a `pipe_write` on descriptor 0 is left
out.
-/

namespace BayosKernel

open Foundation

/-- The byte of a character. -/
def charByte (c : Char) : UInt8 := UInt8.ofNat c.toNat

/-- 0 for the releases of keys, the modifiers and all other keys. -/
def scancodeToAscii (scancode : UInt8) : UInt8 :=
  match scancode.toNat with
  | 0x02 => charByte '1'
  | 0x03 => charByte '2'
  | 0x04 => charByte '3'
  | 0x05 => charByte '4'
  | 0x06 => charByte '5'
  | 0x07 => charByte '6'
  | 0x08 => charByte '7'
  | 0x09 => charByte '8'
  | 0x0A => charByte '9'
  | 0x0B => charByte '0'
  | 0x10 => charByte 'q'
  | 0x11 => charByte 'w'
  | 0x12 => charByte 'e'
  | 0x13 => charByte 'r'
  | 0x14 => charByte 't'
  | 0x15 => charByte 'y'
  | 0x16 => charByte 'u'
  | 0x17 => charByte 'i'
  | 0x18 => charByte 'o'
  | 0x19 => charByte 'p'
  | 0x1E => charByte 'a'
  | 0x1F => charByte 's'
  | 0x20 => charByte 'd'
  | 0x21 => charByte 'f'
  | 0x22 => charByte 'g'
  | 0x23 => charByte 'h'
  | 0x24 => charByte 'j'
  | 0x25 => charByte 'k'
  | 0x26 => charByte 'l'
  | 0x2C => charByte 'z'
  | 0x2D => charByte 'x'
  | 0x2E => charByte 'c'
  | 0x2F => charByte 'v'
  | 0x30 => charByte 'b'
  | 0x31 => charByte 'n'
  | 0x32 => charByte 'm'
  | 0x39 => charByte ' '
  | 0x1C => charByte '\n'
  | _ => 0

/-- The release of a key has the code of the key with the highest bit set. -/
theorem scancodeToAscii_release {scancode : UInt8} (h : 0x80 ≤ scancode.toNat) :
    scancodeToAscii scancode = 0 := by
  rw [scancodeToAscii]
  split
  all_goals first | rfl | omega

/-- The state of `g_keyboard_pipe` after `keyboard_handler`. -/
def PipeState.keyboardHandler (st : PipeState) (scancode : UInt8) : PipeState :=
  let ascii := scancodeToAscii scancode
  if ascii ≠ 0 then (st.pipeTryWrite ascii).1 else st

inductive KeyboardAction where
  | callRead (len : Nat)
  | run (context : Ptr)
  | tick (context : Ptr)
  | key (scancode : UInt8)
  deriving DecidableEq, Repr

def keyboardMachine (fuel : Nat) : Machine PipeState KeyboardAction where
  step st
    | .callRead len => (pipeMachine fuel).step st (.callRead len)
    | .run context => (pipeMachine fuel).step st (.run context)
    | .tick context => (pipeMachine fuel).step st (.tick context)
    | .key scancode => some (st.keyboardHandler scancode)

/-- The character of a key that is pressed, if it has one. -/
def KeyboardAction.typed : KeyboardAction → Option UInt8
  | .key scancode =>
      if scancodeToAscii scancode ≠ 0 then some (scancodeToAscii scancode) else none
  | _ => none

/-- What a step without a key does: bytes may be read, and no slot is taken. -/
structure OnlyReads (st st' : PipeState) : Prop where
  stored : st'.stored = st.stored
  readRefs : st'.pipe.readRefs = st.pipe.readRefs
  semEmpty : st'.pipe.semEmpty = st.pipe.semEmpty
  bufferLen : st'.pipe.bufferLen = st.pipe.bufferLen
  acquired : acquisitions st.pipe.semEmpty st'.sem.history =
    acquisitions st.pipe.semEmpty st.sem.history

section Steps

variable {fuel : Nat} {l : List Ptr} {n : Ptr → Int} {st st' : PipeState} {b : PipePoint}

theorem PipeState.NoWriter.waitsOn (h : st.NoWriter) (ha : Accounts l n st) {p s : Ptr}
    (hw : (st.code p).waitsOn st.pipe = some s) : s ≠ st.pipe.semEmpty := by
  have hp := h p
  cases hcode : st.code p with
  | writeWait w | writeLock w =>
      rw [hcode] at hp
      cases hp
  | readWait r =>
      rw [hcode] at hw
      cases hw
      exact ha.config.empty_ne_full.symm
  | readLock r =>
      rw [hcode] at hw
      cases hw
      exact ha.config.empty_ne_lock.symm
  | _ =>
      rw [hcode] at hw
      cases hw

theorem OnlyReads.waitOn (h : st.NoWriter) (ha : Accounts l n st)
    (hout : st.sem.point st.current = .outside) {s : Ptr}
    (hw : (st.code st.current).waitsOn st.pipe = some s) : OnlyReads st (st.waitOn s) := by
  have hnw := ha.wait_noWrap s
  have hne := h.waitsOn ha hw
  by_cases hpos : 0 < st.sem.count s
  · have heq := SemState.wait_of_pos ha.queues hpos
    have hgo : st.waitOn s =
        PipeState.goto { st with sem := st.sem.wait s } (st.code st.current).afterWait := by
      simp [PipeState.waitOn, heq, hout]
    have hacquired : acquisitions st.pipe.semEmpty (st.sem.wait s).history =
        acquisitions st.pipe.semEmpty st.sem.history := by
      rw [heq, acquisitions_acquired, if_neg hne, Nat.add_zero]
    rw [hgo]
    exact ⟨rfl, rfl, rfl, rfl, hacquired⟩
  · have ev := SemState.wait_blocked ha.queues (Int.not_lt.mp hpos) hnw
    have hstay : st.waitOn s = { st with sem := st.sem.wait s } := by
      simp [PipeState.waitOn, ev.point, PipeState.current]
    have hacquired : acquisitions st.pipe.semEmpty (st.sem.wait s).history =
        acquisitions st.pipe.semEmpty st.sem.history := by
      rw [ev.history, acquisitions_blocked]
    rw [hstay]
    exact ⟨rfl, rfl, rfl, rfl, hacquired⟩

theorem OnlyReads.signalOn (ha : Accounts l n st) {s : Ptr}
    (hnw : st.sem.count s + 1 < 0x80000000) : OnlyReads st (st.signalOn s b) :=
  ⟨rfl, rfl, rfl, rfl, SemState.signal_acquisitions ha.queues _ hnw _⟩

/-- The current process moves on and the semaphores are as before. -/
theorem OnlyReads.goto (st : PipeState) (b : PipePoint) : OnlyReads st (st.goto b) :=
  ⟨rfl, rfl, rfl, rfl, rfl⟩

theorem OnlyReads.statement (h : st.NoWriter) (ha : Accounts l n st)
    (hout : st.sem.point st.current = .outside)
    (hs : st.statement (st.code st.current) = some st') : OnlyReads st st' := by
  have hcurrent := h st.current
  cases hcode : st.code st.current with
  | idle result => simp [hcode, PipeState.statement] at hs
  | writeWait w | writeCheck w | writeLock w | writeSlot w | writeStore w slot | writeLoad w
  | writeSet w v | writeUnlock w | writeSignal w =>
      rw [hcode] at hcurrent
      cases hcurrent
  | readWait r | readLock r =>
      simp only [hcode, PipeState.statement, Option.some.injEq] at hs
      subst hs
      exact waitOn h ha hout (by rw [hcode]; rfl)
  | readLoad r | readMove r =>
      simp only [hcode, PipeState.statement, Option.some.injEq] at hs
      subst hs
      exact ⟨rfl, rfl, rfl, rfl, rfl⟩
  | readUnlock r =>
      simp only [hcode, PipeState.statement, Option.some.injEq] at hs
      subst hs
      exact signalOn ha (ha.lock_noWrap (by rw [hcode]; rfl))
  | readSignal r =>
      simp only [hcode, PipeState.statement, Option.some.injEq] at hs
      subst hs
      exact signalOn ha (ha.empty_noWrap (by rw [hcode]; rfl))
  | readNext r =>
      simp only [hcode, PipeState.statement] at hs
      split at hs
      · cases hs
        by_cases hpos : 0 < st.sem.count st.pipe.semFull
        · have hne : st.pipe.semFull ≠ st.pipe.semEmpty := ha.config.empty_ne_full.symm
          rw [SemState.trywait_of_pos ha.queues hpos]
          refine ⟨rfl, rfl, rfl, rfl, ?_⟩
          simp only [PipeState.goto]
          rw [acquisitions_acquired, if_neg hne, Nat.add_zero]
        · rw [SemState.trywait_of_nonpos (Int.not_lt.mp hpos)]
          exact ⟨rfl, rfl, rfl, rfl, rfl⟩
      · cases hs
        exact goto st _

theorem pipeMachine_onlyReads {a : PipeAction} (h : st.NoWriter) (ha : Accounts l n st)
    (hread : ∀ data, a ≠ .callWrite data) (hkey : ∀ byte, a ≠ .keyboard byte)
    (hs : (pipeMachine fuel).step st a = some st') : OnlyReads st st' := by
  cases a with
  | callWrite data => exact absurd rfl (hread data)
  | keyboard byte => exact absurd rfl (hkey byte)
  | callRead len =>
      simp only [pipeMachine] at hs
      split at hs
      · cases hs
        rw [PipeState.pipeRead]
        split
        · exact .goto st _
        split
        · exact .goto st _
        · exact .goto st _
      · cases hs
  | run context =>
      simp only [pipeMachine] at hs
      split at hs
      · obtain ⟨sem, hsem, rfl⟩ := Option.map_eq_some_iff.mp hs
        have hhistory := (SemState.yieldWait_moved hsem).2
        exact ⟨rfl, rfl, rfl, rfl, by rw [hhistory]⟩
      · rename_i s hpt
        cases hs
        have hne := h.waitsOn ha (ha.link st.current s (by simp [hpt]))
        refine ⟨rfl, rfl, rfl, rfl, ?_⟩
        simp only [PipeState.goto, SemState.resume]
        rw [acquisitions_acquired, if_neg hne, Nat.add_zero]
      · rename_i hout
        exact .statement h ha hout hs
  | tick context =>
      obtain ⟨sem, hsem, rfl⟩ := Option.map_eq_some_iff.mp hs
      have hhistory := (SemState.switch_moved hsem).history
      exact ⟨rfl, rfl, rfl, rfl, by rw [hhistory]⟩

/-- A slot of the ring is free: it has no byte in it, and no reader that took its byte is on
the way to its `sem_signal`. -/
def PipeState.Room (l : List Ptr) (st : PipeState) : Prop :=
  st.stored.length + st.number l .hole < st.taken.length + st.pipe.bufferLen

instance (l : List Ptr) (st : PipeState) : Decidable (st.Room l) := by
  unfold PipeState.Room
  infer_instance

/-- The bytes in the order in which they were stored. -/
def PipeState.keys (st : PipeState) : List UInt8 := st.stored.map Stored.byte

/-- The action of the pipe that a step is, but for a key without a character. -/
def KeyboardAction.pipeAction : KeyboardAction → Option PipeAction
  | .callRead len => some (.callRead len)
  | .run context => some (.run context)
  | .tick context => some (.tick context)
  | .key scancode =>
      if scancodeToAscii scancode ≠ 0 then some (.keyboard (scancodeToAscii scancode)) else none

theorem keyboardMachine_step (st : PipeState) (a : KeyboardAction) :
    (keyboardMachine fuel).step st a =
      match a.pipeAction with
      | some b => (pipeMachine fuel).step st b
      | none => some st := by
  cases a with
  | callRead len | run context | tick context => rfl
  | key scancode =>
      simp only [keyboardMachine, KeyboardAction.pipeAction, PipeState.keyboardHandler]
      split <;> rfl

theorem KeyboardAction.not_callWrite {a : KeyboardAction} {b : PipeAction}
    (hb : a.pipeAction = some b) (data : List UInt8) : b ≠ .callWrite data := by
  rintro rfl
  cases a with
  | callRead len | run context | tick context => cases hb
  | key scancode =>
      rw [pipeAction] at hb
      split at hb <;> cases hb

/-- What is typed is what the interrupt writes. -/
theorem KeyboardAction.typed_eq_some {a : KeyboardAction} {byte : UInt8} :
    a.typed = some byte ↔ a.pipeAction = some (.keyboard byte) := by
  cases a with
  | callRead len | run context | tick context => simp [typed, pipeAction]
  | key scancode =>
      rw [typed, pipeAction]
      split <;> simp

theorem KeyboardAction.typed_cons (a : KeyboardAction) (rest : List KeyboardAction) :
    (a :: rest).filterMap typed = a.typed.toList ++ rest.filterMap typed := by
  rw [List.filterMap_cons]
  cases a.typed <;> rfl

structure KeyboardInv (l : List Ptr) (n : Ptr → Int) (st : PipeState) : Prop where
  accounts : Accounts l n st
  ring : Ring l st
  calls : Calls st
  noWriter : st.NoWriter
  readRefs : st.pipe.readRefs ≠ 0
  acquired : acquisitions st.pipe.semEmpty st.sem.history = st.stored.length

namespace KeyboardInv

/-- Without writers a permit of `sem_empty` is a free slot. -/
theorem takesPermit_iff (h : KeyboardInv l n st) : st.TakesPermit ↔ st.Room l := by
  have hgranted : tally l (st.sem.granted st.pipe.semEmpty) = 0 :=
    tally_eq_zero fun p _ => granted_eq_false fun hwaits =>
      absurd rfl (h.noWriter.waitsOn h.accounts (h.accounts.link p _ hwaits))
  have hbalance := h.accounts.permits.balance st.pipe.semEmpty
  have hhole := h.accounts.ledger.hole
  have hcount := h.accounts.config.empty_count
  have hacquired := h.acquired
  rw [PipeState.TakesPermit, PipeState.Room]
  constructor
  · intro ht
    have hpos := ht.2
    omega
  · intro hroom
    exact ⟨h.readRefs, by omega⟩

/-- A key that finds a free slot is stored, and another one is lost. -/
theorem keyboard (h : KeyboardInv l n st) (byte : UInt8) :
    KeyboardInv l n (st.pipeTryWrite byte).1 ∧
      (st.pipeTryWrite byte).1.pipe.bufferLen = st.pipe.bufferLen ∧
      (st.pipeTryWrite byte).1.keys = st.keys ++ if st.Room l then [byte] else [] := by
  have hs : (pipeMachine 0).step st (.keyboard byte) = some (st.pipeTryWrite byte).1 := rfl
  have hclear : (PipeAction.keyboard byte).Clear l st := by
    intro _ p _
    have hp := h.noWriter p
    cases hcode : st.code p with
    | writeStore w slot | writeLoad w | writeSet w v =>
        rw [hcode] at hp
        cases hp
    | _ => rfl
  have haccounts := pipeMachine_accounts h.accounts hs
  have hring := pipeMachine_ring h.ring h.accounts hclear hs
  have hcalls := pipeMachine_calls h.calls h.accounts hs
  have hwriter := pipeMachine_noWriter h.noWriter (fun _ heq => by cases heq) hs
  by_cases ht : st.TakesPermit
  · have hnw := h.accounts.trywait_full_noWrap ht
    have hqueues := h.accounts.queues.trywait none st.pipe.semEmpty
    have hstored := PipeState.pipeTryWrite_stored h.accounts.queues ht byte
    have hacquired : acquisitions st.pipe.semEmpty (st.pipeTryWrite byte).1.sem.history =
        (st.pipeTryWrite byte).1.stored.length := by
      rw [hstored]
      simp only
      rw [SemState.signal_acquisitions hqueues none hnw,
        SemState.trywait_of_pos h.accounts.queues ht.2, acquisitions_acquired, if_pos rfl,
        h.acquired, List.length_append, List.length_singleton]
    have hpipe : (st.pipeTryWrite byte).1.pipe.semEmpty = st.pipe.semEmpty := by rw [hstored]
    refine ⟨⟨haccounts, hring, hcalls, hwriter, ?_, ?_⟩, ?_, ?_⟩
    · rw [hstored]
      exact h.readRefs
    · rw [hpipe]
      exact hacquired
    · rw [hstored]
    · rw [if_pos (h.takesPermit_iff.mp ht), PipeState.keys, hstored]
      simp only [List.map_append, List.map_cons, List.map_nil, PipeState.keys]
  · rw [if_neg fun hroom => ht (h.takesPermit_iff.mpr hroom), PipeState.pipeTryWrite_refused ht,
      List.append_nil]
    exact ⟨h, rfl, rfl⟩

theorem step {a : KeyboardAction} (h : KeyboardInv l n st)
    (hs : (keyboardMachine fuel).step st a = some st') :
    KeyboardInv l n st' ∧ st'.pipe.bufferLen = st.pipe.bufferLen ∧
      st'.keys = st.keys ++ if st.Room l then a.typed.toList else [] := by
  rw [keyboardMachine_step] at hs
  cases haction : a.pipeAction with
  | none =>
      rw [haction] at hs
      cases hs
      have htyped : a.typed = none := by
        by_contra hne
        obtain ⟨byte, hbyte⟩ := Option.ne_none_iff_exists'.mp hne
        rw [KeyboardAction.typed_eq_some.mp hbyte] at haction
        cases haction
      rw [htyped]
      refine ⟨h, rfl, ?_⟩
      split <;> simp
  | some b =>
      rw [haction] at hs
      by_cases hkey : ∃ byte, b = .keyboard byte
      · obtain ⟨byte, rfl⟩ := hkey
        cases hs
        rw [KeyboardAction.typed_eq_some.mpr haction]
        exact h.keyboard byte
      · have hnokey : ∀ byte, b ≠ .keyboard byte := fun byte hb => hkey ⟨byte, hb⟩
        have hread := a.not_callWrite haction
        have htyped : a.typed = none := by
          by_contra hne
          obtain ⟨byte, hbyte⟩ := Option.ne_none_iff_exists'.mp hne
          rw [KeyboardAction.typed_eq_some.mp hbyte] at haction
          exact hnokey byte (Option.some.inj haction).symm
        have honly := pipeMachine_onlyReads h.noWriter h.accounts hread hnokey hs
        have hclear : b.Clear l st := by
          cases b with
          | keyboard byte => exact absurd rfl (hnokey byte)
          | _ => trivial
        refine ⟨⟨pipeMachine_accounts h.accounts hs, pipeMachine_ring h.ring h.accounts hclear hs,
          pipeMachine_calls h.calls h.accounts hs, pipeMachine_noWriter h.noWriter hread hs, ?_, ?_⟩,
          honly.bufferLen, ?_⟩
        · rw [honly.readRefs]
          exact h.readRefs
        · rw [honly.semEmpty, honly.acquired, honly.stored]
          exact h.acquired
        · rw [htyped, PipeState.keys, PipeState.keys, honly.stored]
          split <;> simp

/-- A run stores what is typed into a ring with room, in its order. -/
theorem run {run : List KeyboardAction} (h : KeyboardInv l n st)
    (hs : (keyboardMachine fuel).exec st run = some st') :
    KeyboardInv l n st' ∧ st'.pipe.bufferLen = st.pipe.bufferLen ∧
      ∃ kept, st'.keys = st.keys ++ kept ∧ kept.Sublist (run.filterMap KeyboardAction.typed) ∧
        ((keyboardMachine fuel).Meets (fun st a => a.typed.isSome → st.Room l) st run →
          kept = run.filterMap KeyboardAction.typed) := by
  induction run generalizing st with
  | nil =>
      cases hs
      exact ⟨h, rfl, [], (List.append_nil _).symm, .slnil, fun _ => rfl⟩
  | cons a rest ih =>
      obtain ⟨st₁, hstep, hrest⟩ := (keyboardMachine fuel).exec_cons_some hs
      obtain ⟨h₁, hlen₁, hkeys₁⟩ := h.step hstep
      obtain ⟨h', hlen', kept, hkeys', hsub, hall⟩ := ih h₁ hrest
      refine ⟨h', hlen'.trans hlen₁, (if st.Room l then a.typed.toList else []) ++ kept, ?_, ?_, ?_⟩
      · rw [hkeys', hkeys₁, List.append_assoc]
      · rw [KeyboardAction.typed_cons]
        refine List.Sublist.append ?_ hsub
        split
        · exact List.Sublist.refl _
        · exact List.nil_sublist _
      · intro hmeets
        have hnext := ((keyboardMachine fuel).meets_cons_iff hstep).mp hmeets
        rw [KeyboardAction.typed_cons, hall hnext.2]
        cases hchar : a.typed with
        | none => simp
        | some byte =>
            rw [if_pos (hnext.1 (by rw [hchar]; rfl))]

/-- As many keys as the ring has slots find room. -/
theorem meets_room {run : List KeyboardAction} (h : KeyboardInv l n st)
    (hfew : st.stored.length + (run.filterMap KeyboardAction.typed).length ≤ st.pipe.bufferLen) :
    (keyboardMachine fuel).Meets (fun st a => a.typed.isSome → st.Room l) st run := by
  induction run generalizing st with
  | nil => trivial
  | cons a rest ih =>
      rw [KeyboardAction.typed_cons, List.length_append] at hfew
      refine ⟨fun hsome => ?_, fun st₁ hstep => ?_⟩
      · obtain ⟨byte, hbyte⟩ := Option.isSome_iff_exists.mp hsome
        rw [hbyte, Option.toList_some, List.length_singleton] at hfew
        have hhole := h.accounts.ledger.hole
        rw [PipeState.Room]
        omega
      · obtain ⟨h₁, hlen₁, hkeys₁⟩ := h.step hstep
        have hlength := congrArg List.length hkeys₁
        rw [List.length_append, PipeState.keys, PipeState.keys, List.length_map, List.length_map]
          at hlength
        have hone : (if st.Room l then a.typed.toList else []).length ≤ a.typed.toList.length := by
          split
          · exact Nat.le_refl _
          · exact Nat.zero_le _
        refine ih h₁ ?_
        omega

end KeyboardInv

theorem PipeInit.keyboardInv {bufferLen : Nat} (init : PipeInit l bufferLen st)
    (len_pos : 1 ≤ bufferLen) (len_lt : bufferLen < 0x80000000) :
    KeyboardInv l st.sem.initialCount st where
  accounts := init.accounts len_pos len_lt
  ring := init.ring
  calls := init.callsInit
  noWriter p := by rw [init.idle p]; rfl
  readRefs := by
    obtain ⟨k, content, s, hcreated⟩ := init.created
    rw [← (Prod.mk.inj hcreated).2]
    exact Int.one_ne_zero
  acquired := by
    rw [init.sem.history, init.stored]
    rfl

end Steps

/-- What the processes read are the characters of the keys that were pressed, in their
order and each once. A key is lost exactly if it finds no free slot in the ring, so that
the first `buffer_len` ones are all kept. -/
theorem keyboardMachine_types (fuel : Nat) (l : List Ptr) (bufferLen : Nat) (st₀ st : PipeState)
    (run : List KeyboardAction) (init : PipeInit l bufferLen st₀) (len_pos : 1 ≤ bufferLen)
    (len_lt : bufferLen < 0x80000000)
    (reached : (keyboardMachine fuel).exec st₀ run = some st) :
    Fifo st ∧ st.keys.Sublist (run.filterMap KeyboardAction.typed) ∧
      ((keyboardMachine fuel).Meets (fun st a => a.typed.isSome → st.Room l) st₀ run →
        st.keys = run.filterMap KeyboardAction.typed) ∧
      ((run.filterMap KeyboardAction.typed).length ≤ bufferLen →
        st.keys = run.filterMap KeyboardAction.typed) ∧
      ∀ scancode, (st.keyboardHandler scancode).keys =
        st.keys ++ if st.Room l then (KeyboardAction.key scancode).typed.toList else [] := by
  have hinv := init.keyboardInv len_pos len_lt
  obtain ⟨h, -, kept, hkeys, hsub, hall⟩ := hinv.run reached
  have hempty : st₀.keys = [] := by rw [PipeState.keys, init.stored, List.map_nil]
  have hlen : st₀.pipe.bufferLen = bufferLen := by
    obtain ⟨k, content, s, hcreated⟩ := init.created
    rw [← (Prod.mk.inj hcreated).2]
  rw [hempty, List.nil_append] at hkeys
  rw [← hkeys] at hsub hall
  refine ⟨h.ring.fifo h.accounts h.calls, hsub, hall, fun hfew => hall (hinv.meets_room ?_),
    fun scancode => ?_⟩
  · rw [init.stored, hlen, List.length_nil, Nat.zero_add]
    exact hfew
  · have hstep : (keyboardMachine fuel).step st (.key scancode) =
        some (st.keyboardHandler scancode) := rfl
    exact (h.step hstep).2.2

/-- `a` and `b` are pressed and released, then the first process reads. -/
def typeAndRead : List KeyboardAction :=
  [.key 0x1E, .key 0x9E, .key 0x30, .key 0xB0, .callRead 2] ++ List.replicate 12 (.run 0)

theorem keyboardMachine_types_typeAndRead : ∃ st,
    (keyboardMachine 3).exec pipeUsers typeAndRead = some st ∧ st.taken = [97, 98] ∧
      st.keys = [97, 98] := by
  have hrun : ((keyboardMachine 3).exec pipeUsers typeAndRead).map PipeState.taken =
      some [97, 98] := by decide +kernel
  obtain ⟨st, hst, htaken⟩ := Option.map_eq_some_iff.mp hrun
  obtain ⟨-, -, -, hfew, -⟩ := keyboardMachine_types 3 [kernelHeap + 32, kernelHeap + 256] 4
    pipeUsers st typeAndRead pipeUsers_init (by decide) (by decide) hst
  exact ⟨st, hst, htaken, hfew (by decide)⟩

end BayosKernel
