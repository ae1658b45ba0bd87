import BayosKernel.Initramfs
import BayosKernel.LinkedListLifetime

/-!
`vfs_mount`, `vfs_umount` and the operations of the initramfs over memory: structures
and strings lie in blocks of the kernel heap, and the archive outside it.

`none` is a loop that has not ended, or a read through NULL. A variable that the
code does not set has the value that it is given here. The locks are left out.
-/

namespace BayosKernel

open Foundation BlockList

/-- `sizeof(mountpoint_t)`. -/
abbrev sizeofMountpoint : Nat := 24

/-- `sizeof(file_t)`. -/
abbrev sizeofFile : Nat := 24

namespace MountpointStruct

def device (m : ByteMemory) (mp : Nat) : Nat := m.load 8 mp

def setDevice (m : ByteMemory) (mp v : Nat) : ByteMemory := m.store 8 mp v

def setPath (m : ByteMemory) (mp v : Nat) : ByteMemory := m.store 8 (mp + 8) v

def operations (m : ByteMemory) (mp : Nat) : Nat := m.load 8 (mp + 16)

def setOperations (m : ByteMemory) (mp v : Nat) : ByteMemory := m.store 8 (mp + 16) v

end MountpointStruct

namespace FileStruct

def path (m : ByteMemory) (file : Nat) : Nat := m.load 8 file

def setPath (m : ByteMemory) (file v : Nat) : ByteMemory := m.store 8 file v

def offset (m : ByteMemory) (file : Nat) : Nat := m.load 8 (file + 8)

def setOffset (m : ByteMemory) (file v : Nat) : ByteMemory := m.store 8 (file + 8) v

def filesz (m : ByteMemory) (file : Nat) : Nat := m.load 8 (file + 16)

def setFilesz (m : ByteMemory) (file v : Nat) : ByteMemory := m.store 8 (file + 16) v

end FileStruct

/-- The loop of `strcpy`. -/
def strcpyFrom : Nat → ByteMemory → Nat → Nat → Option ByteMemory
  | 0, _, _, _ => none
  | fuel + 1, m, d, src =>
      let c := m src
      let m := Function.update m d c
      if c ≠ 0 then strcpyFrom fuel m (d + 1) (src + 1) else some m

/-- `*field = alloc(al, strlen(path) + 1)` and, where that is not NULL, `strcpy(*field, path)`. -/
def allocPath (fuel : Nat) (heap : HeapState) (field path : Nat) : Option (HeapState × Nat) :=
  (strlen fuel (bytesFrom heap.mem path)).bind fun len =>
    (heap.take fuel (add64 len 1)).bind fun (heap, chars) =>
      let heap := { heap with mem := heap.mem.store 8 field chars }
      if heap.mem.load 8 field = NULL then some (heap, NULL)
      else
        (strcpyFrom fuel heap.mem (heap.mem.load 8 field) path).map fun m =>
          ({ heap with mem := m }, heap.mem.load 8 field)

section Mounts

open MountpointStruct

def vfsMountAt (fuel : Nat) (heap : HeapState) (ll device path operations : Nat) :
    Option (HeapState × Int) :=
  (heap.take fuel sizeofMountpoint).bind fun (heap, mp) =>
    if mp = NULL then some (heap, -1)
    else
      let m := setOperations (setDevice heap.mem mp device) mp operations
      (allocPath fuel { heap with mem := m } (mp + 8) path).bind fun (heap, chars) =>
        if chars = NULL then some (heap.give mp, -1)
        else
          (llAddBack fuel heap ll mp).map fun (heap, res) =>
            if res ≠ 0 then ((heap.give (mountpointPath heap.mem mp)).give mp, -1)
            else (heap, 0)

/-- The answer is -1, or none: the function ends without a `return`. -/
def vfsUmountAt (limit : Nat → Nat) (fuel : Nat) (heap : HeapState) (ll path : Nat) :
    Option (HeapState × Option Int) :=
  (vfsGetMountpointAt limit fuel heap.mem ll path).bind fun mp =>
    if mp = NULL then some (heap, some (-1))
    else
      let heap := heap.give (mountpointPath heap.mem mp)
      let heap := heap.give mp
      (llRemovePointer heap ll mp).map fun heap => (heap, none)

end Mounts

section Files

open FileStruct

/-- `open` of `fs/initramfs.c`. -/
def initramfsOpenAt (fuel archive out : Nat) (heap : HeapState) (path : Nat) :
    Option (HeapState × Nat) :=
  (initramfsLookup fuel heap.mem archive path out).bind fun (filesz, out) =>
    if filesz = 0 ∨ out = NULL then some (heap, NULL)
    else
      (heap.take fuel sizeofFile).bind fun (heap, file) =>
        if file = NULL then some (heap, NULL)
        else
          (allocPath fuel heap file path).map fun (heap, chars) =>
            if chars = NULL then (heap.give file, NULL)
            else
              let m := setOffset heap.mem file 0
              let m := setFilesz m file (sizeT filesz)
              ({ heap with mem := m }, file)

/-- `read` of `fs/initramfs.c`. -/
def initramfsRead (fuel archive fileBuf : Nat) (m : ByteMemory) (file buf count : Nat) :
    Option (ByteMemory × Nat) :=
  (initramfsLookup fuel m archive (path m file) fileBuf).map fun (filesz, fileBuf) =>
    if offset m file ≥ sizeT filesz then (m, 0)
    else
      let remaining := sub64 (sizeT filesz) (offset m file)
      let toCopy := if count < remaining then count else remaining
      let m := m.memcpy buf (add64 fileBuf (offset m file)) toCopy
      (setOffset m file (add64 (offset m file) toCopy), toCopy)

end Files

/-- The free blocks have room for a `file_t` and then for a path of the length. -/
def HeapState.HoldsFile (heap : HeapState) (length : Nat) : Prop :=
  ∃ bs o bs', Tiled heap.al heap.mem bs ∧ firstFit 0x20 0x20 0x20 bs = some (o, bs') ∧
    firstFit 0x20 0x20 (max (length + 1) 0x20) bs' ≠ none

/-- A copy with its first byte stored before. -/
theorem memcpy_update {m : ByteMemory} {dest src n : Nat} (h : ∀ i ≤ n, src + i ≠ dest) :
    ByteMemory.memcpy (Function.update m dest (m src)) (dest + 1) (src + 1) n =
      m.memcpy dest src (n + 1) := by
  funext x
  rw [ByteMemory.memcpy, ByteMemory.memcpy]
  by_cases hx : dest + 1 ≤ x ∧ x < dest + 1 + n
  · have hne : src + 1 + (x - (dest + 1)) ≠ dest := by
      rw [Nat.add_assoc]
      exact h _ (by omega)
    rw [if_pos hx, if_pos (by omega), Function.update_of_ne hne,
      show src + (x - dest) = src + 1 + (x - (dest + 1)) by omega]
  · rw [if_neg hx, Function.update_apply]
    by_cases hhead : x = dest
    · rw [if_pos hhead, if_pos (by omega), hhead, Nat.sub_self, Nat.add_zero]
    · rw [if_neg hhead, if_neg (by omega)]

/-- `strcpy` of a string to where it does not overlap. -/
theorem strcpyFrom_eq {m : ByteMemory} {dest src : Nat} {cs : List UInt8} {fuel : Nat}
    (h : CString (bytesFrom m src) cs) (hfuel : cs.length < fuel)
    (hapart : ∀ i ≤ cs.length, src + i < dest ∨ dest + (cs.length + 1) ≤ src + i) :
    strcpyFrom fuel m dest src = some (m.memcpy dest src (cs.length + 1)) := by
  induction cs generalizing m dest src fuel with
  | nil =>
      obtain ⟨fuel, rfl⟩ : ∃ k, fuel = k + 1 := ⟨fuel - 1, by omega⟩
      have hend : m src = 0 := h.terminator
      have hcopy := @memcpy_update m dest src 0 fun i hi => by
        have := hapart i hi
        omega
      rw [strcpyFrom, if_neg (not_not.mpr hend), List.length_nil, ← hcopy, Option.some.injEq]
      funext x
      rw [ByteMemory.memcpy_outside _ (by omega)]
  | cons c rest ih =>
      obtain ⟨fuel, rfl⟩ : ∃ k, fuel = k + 1 :=
        ⟨fuel - 1, by simp only [List.length_cons] at hfuel; omega⟩
      simp only [List.length_cons] at hfuel hapart
      have hchar : m src ≠ 0 := h.char_ne_zero (i := 0) (by simp)
      have hne : ∀ i ≤ rest.length + 1, src + i ≠ dest := fun i hi => by
        have := hapart i hi
        omega
      have hrest : CString (bytesFrom (Function.update m dest (m src)) (src + 1)) rest := by
        refine (h.tail (List.cons_ne_nil c rest)).congr fun i hi => ?_
        rw [List.tail_cons] at hi
        rw [bytesFrom, bytesFrom, Nat.add_assoc, Function.update_of_ne (hne (1 + i) (by omega))]
      rw [strcpyFrom, if_pos hchar, List.length_cons, ← memcpy_update hne]
      refine ih hrest (by omega) fun i hi => ?_
      have := hapart (i + 1) (by omega)
      omega

theorem HeapInv.holdsFile_iff {st : HeapState} {bs : List Block} (h : HeapInv st bs)
    {length : Nat} : st.HoldsFile length ↔
    ∃ o bs', firstFit 0x20 0x20 0x20 bs = some (o, bs') ∧
      firstFit 0x20 0x20 (max (length + 1) 0x20) bs' ≠ none := by
  constructor
  · rintro ⟨bs₀, o, bs', htiled, hfit⟩
    rw [h.tiled.unique htiled]
    exact ⟨o, bs', hfit⟩
  · rintro ⟨o, bs', hfit⟩
    exact ⟨bs, o, bs', h.tiled, hfit⟩

/-- What `allocPath` leaves where there is room for the string. -/
structure PathCopied (heap heap' : HeapState) (field chars : Nat) (cs : List UInt8)
    (bs bs' : List Block) : Prop where
  taken : ∃ heap₁, Taken heap heap₁ (cs.length + 1) chars bs bs'
  inv : HeapInv heap' bs'
  al : heap'.al = heap.al
  live : heap'.live = (chars, cs.length + 1) :: heap.live
  pointer : heap'.mem.load 8 field = chars
  string : CString (bytesFrom heap'.mem chars) cs
  keeps : ∀ x, heap.Writable x →
    ((x < field ∨ field + 8 ≤ x) → heap'.mem x = heap.mem x) ∧ heap'.Writable x

section Copies

variable {fuel : Nat} {heap heap' : HeapState} {bs bs' : List Block} {field path chars n p : Nat}
  {cs : List UInt8}

/-- The string is copied to a new block, or the field becomes NULL. -/
theorem allocPath_cases (hinv : HeapInv heap bs) (hfuel : heap.al.size ≤ fuel)
    (hlive : (p, n) ∈ heap.live) (hfield : p ≤ field ∧ field + 8 ≤ p + n)
    (hpath : CString (bytesFrom heap.mem path) cs)
    (hclient : ∀ i ≤ cs.length,
      heap.Writable (path + i) ∧ (path + i < field ∨ field + 8 ≤ path + i))
    (hlength : cs.length < fuel) (hshort : cs.length < 0x800000000000) :
    ∃ heap' chars, allocPath fuel heap field path = some (heap', chars) ∧
      ((chars = NULL ∧ heap' = { heap with mem := heap.mem.store 8 field NULL } ∧
        firstFit 0x20 0x20 (max (cs.length + 1) 0x20) bs = none) ∨
      ∃ bs', PathCopied heap heap' field chars cs bs bs') := by
  have hpos : 0 < heap.al.addr :=
    Nat.pos_of_ne_zero fun hzero => by simp [hinv.nowhere hzero] at hlive
  rw [allocPath, strlen_eq hpath hlength, Option.bind_some, add64_eq (by omega)]
  obtain ⟨heap₁, chars, htake⟩ := hinv.take_some (n := cs.length + 1) hfuel (by omega)
  rw [htake, Option.bind_some]
  rcases hinv.take_firstFit hpos hfuel (by omega) htake with ⟨hnone, rfl, rfl⟩ | ⟨bs₁, ht⟩
  · simp only [ByteMemory.load_store_word heap₁.mem (show NULL < 0x10000000000000000 by decide),
      if_true]
    exact ⟨_, NULL, rfl, Or.inl ⟨rfl, rfl, hnone⟩⟩
  · have hend := ht.inv.live_end ht.mem
    simp only at hend
    have hfieldmem : (p, n) ∈ heap₁.live := ht.old hlive
    have hfieldapart := ht.block_apart hlive
    simp only at hfieldapart
    simp only [ByteMemory.load_store_word heap₁.mem (show chars < 0x10000000000000000 by omega),
      if_neg ht.ne_null]
    -- the field, and then the characters
    obtain ⟨m₁, hm₁⟩ : ∃ m₁, heap₁.mem.store 8 field chars = m₁ := ⟨_, rfl⟩
    have hframe₁ : ∀ x, x < field ∨ field + 8 ≤ x → m₁ x = heap₁.mem x := fun x hx => by
      rw [← hm₁, ByteMemory.store_outside _ hx]
    have h₁ : HeapInv { heap₁ with mem := m₁ } bs₁ :=
      ht.inv.of_block hfieldmem fun x hx => hframe₁ x (by simp only at hx; omega)
    have hsource : ∀ i ≤ cs.length, bytesFrom m₁ path i = bytesFrom heap.mem path i :=
      fun i hi => (hframe₁ _ (hclient i hi).2).trans (ht.kept hinv (hclient i hi).1).1
    have hread : m₁.load 8 field = chars := by
      rw [← hm₁, ByteMemory.load_store_word _ (by omega)]
    obtain ⟨m₂, hm₂⟩ : ∃ m₂, m₁.memcpy chars path (cs.length + 1) = m₂ := ⟨_, rfl⟩
    have hframe₂ : ∀ x, x < chars ∨ chars + (cs.length + 1) ≤ x → m₂ x = m₁ x := fun x hx => by
      rw [← hm₂, ByteMemory.memcpy_outside _ hx]
    rw [hm₁, strcpyFrom_eq (hpath.congr hsource) hlength fun i hi => ht.apart (hclient i hi).1,
      Option.map_some, hm₂]
    refine ⟨_, chars, rfl, Or.inr ⟨bs₁, ⟨heap₁, ht⟩, h₁.of_block ht.mem hframe₂, ht.al, ht.live,
      ?_, hpath.congr fun i hi => ?_, fun x hx => ⟨fun hout => ?_, (ht.kept hinv hx).2⟩⟩⟩
    · rw [← hread]
      exact ByteMemory.load_congr fun x hle hlt => hframe₂ x (by omega)
    · rw [← hsource i hi]
      show m₂ (chars + i) = m₁ (path + i)
      rw [← hm₂, ByteMemory.memcpy_inside _ (by omega)]
    · exact ((hframe₂ x (ht.apart hx)).trans (hframe₁ x hout)).trans (ht.kept hinv hx).1

end Copies

end BayosKernel
