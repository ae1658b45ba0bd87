import BayosKernel.VfsMemory

/-!
The mount table in the kernel heap: the list, and for each mountpoint its structure and
its path, which are blocks of their own.
-/

namespace BayosKernel

open Foundation BlockList MountpointStruct

/-- A mountpoint as `vfs_mount` leaves it. -/
structure Mounted (heap : HeapState) (limit : Nat → Nat) (mp : Mountpoint) : Prop where
  device : device heap.mem mp.addr = mp.device
  operations : operations heap.mem mp.addr = mp.operations
  path : StringAt heap.mem limit (mountpointPath heap.mem mp.addr) mp.path
  struct_live : (mp.addr, sizeofMountpoint) ∈ heap.live
  path_live : (mountpointPath heap.mem mp.addr, mp.path.length + 1) ∈ heap.live

/-- The blocks of a mountpoint. -/
def mountBlocks (m : ByteMemory) (mp : Mountpoint) : List Nat := [mp.addr, mountpointPath m mp.addr]

structure MountsIn (heap : HeapState) (limit : Nat → Nat) (ll : Nat) (nodes : List Nat)
    (mounts : List Mountpoint) : Prop where
  list : ListIn heap ll nodes (mounts.map Mountpoint.addr)
  header : (ll, sizeofLl) ∈ heap.live
  mounted : ∀ mp ∈ mounts, Mounted heap limit mp
  distinct : (ll :: (nodes ++ mounts.flatMap (mountBlocks heap.mem))).Nodup

section Table

variable {heap heap' : HeapState} {bs : List Block} {limit : Nat → Nat} {ll : Nat}
  {nodes contents : List Nat} {mounts : List Mountpoint} {mp : Mountpoint}

/-- The list is the same where its blocks are. -/
theorem ListIn.congr (h : ListIn heap ll nodes contents)
    (hbytes : ∀ p ∈ ll :: nodes, ∀ x, p ≤ x → x < p + 24 → heap'.mem x = heap.mem x)
    (hheader : ∀ x, ll ≤ x → x < ll + sizeofLl → heap'.Writable x)
    (howned : ∀ p ∈ nodes, (p, sizeofLlNode) ∈ heap'.live) : ListIn heap' ll nodes contents := by
  refine ⟨h.ne_null, h.linked.congr hbytes, ?_, howned, hheader, h.apart⟩
  rw [← h.contents]
  exact List.map_congr_left fun p hp => (LlNode.congr (hbytes p (by simp [hp]))).1

theorem Mounted.path_eq
    (hbytes : ∀ x, mp.addr ≤ x → x < mp.addr + 24 → heap'.mem x = heap.mem x) :
    mountpointPath heap'.mem mp.addr = mountpointPath heap.mem mp.addr :=
  ByteMemory.load_congr fun x hle hlt => hbytes x (by omega) (by omega)

/-- A mountpoint is the same where its two blocks are. -/
theorem Mounted.congr (h : Mounted heap limit mp)
    (hstruct : ∀ x, mp.addr ≤ x → x < mp.addr + 24 → heap'.mem x = heap.mem x)
    (hpath : ∀ x, mountpointPath heap.mem mp.addr ≤ x →
      x < mountpointPath heap.mem mp.addr + (mp.path.length + 1) → heap'.mem x = heap.mem x)
    (hlive : (mp.addr, sizeofMountpoint) ∈ heap'.live)
    (hlive' : (mountpointPath heap.mem mp.addr, mp.path.length + 1) ∈ heap'.live) :
    Mounted heap' limit mp := by
  have hptr := Mounted.path_eq hstruct
  refine ⟨?_, ?_, ?_, hlive, by rw [hptr]; exact hlive'⟩
  · exact (ByteMemory.load_congr fun x hle hlt => hstruct x hle (by omega)).trans h.device
  · exact (ByteMemory.load_congr fun x hle hlt => hstruct x (by omega) (by omega)).trans
      h.operations
  · rw [hptr]
    refine ⟨h.path.ne_null, h.path.bytes.congr fun i hi => hpath _ (by omega) ?_, h.path.limit⟩
    simp only [Path.length]
    omega

theorem Mounted.writable (h : Mounted heap limit mp) :
    (∀ x, mp.addr ≤ x → x < mp.addr + 24 → heap.Writable x) ∧
      ∀ x, mountpointPath heap.mem mp.addr ≤ x →
        x < mountpointPath heap.mem mp.addr + (mp.path.length + 1) → heap.Writable x :=
  ⟨fun _ hle hlt => Or.inr ⟨_, h.struct_live, hle, hlt⟩,
    fun _ hle hlt => Or.inr ⟨_, h.path_live, hle, hlt⟩⟩

namespace MountsIn

theorem mountList (h : MountsIn heap limit ll nodes mounts) (hinv : HeapInv heap bs) :
    MountList heap.mem limit ll nodes mounts :=
  ⟨h.list.ne_null, h.list.linked.size, h.list.linked.forward, h.list.contents,
    fun mp hmp => hinv.live_ne_null (h.mounted mp hmp).struct_live,
    fun mp hmp => (h.mounted mp hmp).path⟩

/-- What does not touch the memory of the clients leaves the mounts alone. -/
theorem untouched (h : MountsIn heap limit ll nodes mounts) (hsame : Untouched heap heap' bs) :
    MountsIn heap' limit ll nodes mounts := by
  have hmounted : ∀ mp ∈ mounts, Mounted heap' limit mp ∧
      mountpointPath heap'.mem mp.addr = mountpointPath heap.mem mp.addr := by
    intro mp hmp
    have hmp := h.mounted mp hmp
    obtain ⟨hstruct, hpath⟩ := hmp.writable
    have hbytes : ∀ x, mp.addr ≤ x → x < mp.addr + 24 → heap'.mem x = heap.mem x :=
      fun x hle hlt => (hsame.keeps x (hstruct x hle hlt)).1
    refine ⟨hmp.congr hbytes (fun x hle hlt => (hsame.keeps x (hpath x hle hlt)).1) ?_ ?_,
      Mounted.path_eq hbytes⟩
    · rw [hsame.live]
      exact hmp.struct_live
    · rw [hsame.live]
      exact hmp.path_live
  refine ⟨h.list.congr (fun p hp x hle hlt => ?_) (fun x hle hlt => ?_) (fun p hp => ?_), ?_,
    fun mp hmp => (hmounted mp hmp).1, ?_⟩
  · exact (hsame.keeps x (h.list.writable hp hle hlt)).1
  · exact (hsame.keeps x (h.list.header x hle hlt)).2
  · rw [hsame.live]
    exact h.list.owned p hp
  · rw [hsame.live]
    exact h.header
  · have hblocks : mounts.flatMap (mountBlocks heap'.mem) = mounts.flatMap (mountBlocks heap.mem) :=
      List.flatMap_congr fun mp hmp => by rw [mountBlocks, mountBlocks, (hmounted mp hmp).2]
    rw [hblocks]
    exact h.distinct

end MountsIn

end Table

end BayosKernel
