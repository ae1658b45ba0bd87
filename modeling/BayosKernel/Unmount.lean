import BayosKernel.MountTable

/-!
`vfs_umount` over memory. It unmounts what the search for files finds, takes it out of
the list only where it is the first, and never answers 0.
-/

namespace BayosKernel

open Foundation BlockList

/-- The mountpoint is out of the table and its three blocks are freed; the rest stays in order. -/
structure MountRemoved (heap heap' : HeapState) (limit : Nat → Nat) (ll : Nat) (nodes : List Nat)
    (mp : Mountpoint) (rest : List Mountpoint) : Prop where
  valid : ∃ bs, HeapInv heap' bs
  table : ∃ nodes', MountsIn heap' limit ll nodes' rest
  freed : ∃ node ∈ nodes, heap.live.Perm
    ((mountpointPath heap.mem mp.addr, mp.path.length + 1) :: (mp.addr, sizeofMountpoint) ::
      (node, sizeofLlNode) :: heap'.live)

/-- The mountpoint of this path is removed. -/
def Unmounted (heap heap' : HeapState) (limit : Nat → Nat) (ll : Nat) (nodes : List Nat)
    (mounts : List Mountpoint) (path : Path) : Prop :=
  ∃ pre mp post, mounts = pre ++ mp :: post ∧ mp.path = path ∧
    MountRemoved heap heap' limit ll nodes mp (pre ++ post)

/-- No mountpoint has this path, and nothing happened. -/
def NotMounted (heap heap' : HeapState) (mounts : List Mountpoint) (path : Path) : Prop :=
  (∀ mp ∈ mounts, mp.path ≠ path) ∧ heap' = heap

/-- The heap behind the two calls of `free`. -/
def freeMount (heap : HeapState) (mp : Nat) : HeapState :=
  (heap.give (mountpointPath heap.mem mp)).give mp

theorem Path.covers_self (path : Path) : path.Covers path := by
  refine ⟨?_, Or.inr (Or.inl (bytes_eq_zero.mpr (Nat.le_refl _)))⟩
  exact strncmp_prefix.mpr (List.prefix_refl _)

theorem Path.Covers.starts {mp path : Path} (h : mp.Covers path) : mp.chars <+: path.chars :=
  strncmp_prefix.mp h.1

theorem Path.Covers.length_le {mp path : Path} (h : mp.Covers path) : mp.length ≤ path.length :=
  h.starts.length_le

/-- A path that covers another and is as long is the same. -/
theorem Path.Covers.eq_of_length {mp path : Path} (h : mp.Covers path)
    (hle : path.length ≤ mp.length) : mp = path := by
  have hchars := h.starts.eq_of_length (Nat.le_antisymm h.length_le hle)
  obtain ⟨cs, hcs⟩ := mp
  obtain ⟨ds, hds⟩ := path
  cases hchars
  rfl

/-- The mountpoint that is found has the path when one of them has. -/
theorem vfsGetMountpoint_exact {mounts : List Mountpoint} {path : Path} {mp b : Mountpoint}
    (hfound : vfsGetMountpoint mounts path = some mp) (hb : b ∈ mounts) (hpath : b.path = path) :
    mp.path = path := by
  rw [vfsGetMountpoint_eq, firstMax_eq_some] at hfound
  have hcovers : mp.path.Covers path := by
    obtain ⟨pre, post, -, hcovers, -⟩ := hfound
    exact hcovers
  have hle := hfound.le hb (hpath ▸ b.path.covers_self)
  rw [hpath] at hle
  exact hcovers.eq_of_length hle

/-- The first mountpoint is found when it has the path. -/
theorem vfsGetMountpoint_head {path : Path} {mp : Mountpoint} {rest : List Mountpoint}
    (hpath : mp.path = path) : vfsGetMountpoint (mp :: rest) path = some mp := by
  rw [vfsGetMountpoint_eq, firstMax_eq_some]
  refine ⟨[], rest, rfl, hpath ▸ mp.path.covers_self, by simp, fun b _ hb => ?_⟩
  show b.path.length ≤ mp.path.length
  rw [hpath]
  exact Path.Covers.length_le hb

section Unmount

variable {heap heap' : HeapState} {bs : List Block} {limit : Nat → Nat} {fuel ll p : Nat}
  {nodes : List Nat} {mounts rest : List Mountpoint} {mp b : Mountpoint}

namespace MountsIn

theorem blocks_nodup (h : MountsIn heap limit ll nodes mounts) (hmp : mp ∈ mounts) :
    mountpointPath heap.mem mp.addr ≠ mp.addr := by
  have hflat := (List.nodup_append.mp (List.nodup_cons.mp h.distinct).2).2.1
  have hblocks := (List.nodup_flatMap.mp hflat).1 mp hmp
  intro heq
  rw [mountBlocks, heq] at hblocks
  simp at hblocks

/-- The blocks of a mountpoint are not those of the list. -/
theorem list_ne (h : MountsIn heap limit ll nodes mounts) (hmp : mp ∈ mounts)
    (hp : p ∈ ll :: nodes) : p ∉ mountBlocks heap.mem mp := by
  intro hmem
  have hblock : p ∈ mounts.flatMap (mountBlocks heap.mem) := List.mem_flatMap.mpr ⟨mp, hmp, hmem⟩
  obtain ⟨hll, hnodup⟩ := List.nodup_cons.mp h.distinct
  rcases List.mem_cons.mp hp with rfl | hp
  · exact hll (List.mem_append_right _ hblock)
  · exact (List.nodup_append.mp hnodup).2.2 p hp p hblock rfl

theorem rest_ne (h : MountsIn heap limit ll nodes (mp :: rest)) (hb : b ∈ rest)
    (hp : p ∈ mountBlocks heap.mem b) : p ∉ mountBlocks heap.mem mp := by
  have hflat := (List.nodup_append.mp (List.nodup_cons.mp h.distinct).2).2.1
  have hpairs := (List.nodup_flatMap.mp hflat).2
  exact fun hmem => (List.pairwise_cons.mp hpairs).1 b hb hmem hp

theorem addr_ne (h : MountsIn heap limit ll nodes (mp :: rest)) (hb : b ∈ rest) :
    mp.addr ≠ b.addr := fun heq =>
  h.rest_ne (p := b.addr) hb (by simp [mountBlocks]) (by simp [mountBlocks, heq])

/-- `vfs_umount` frees the path and then the mountpoint; the other blocks stay. -/
theorem freeMount_keeps (h : MountsIn heap limit ll nodes mounts) (hinv : HeapInv heap bs)
    (hmp : mp ∈ mounts) :
    (∃ bs', HeapInv (freeMount heap mp.addr) bs') ∧
      heap.live.Perm ((mountpointPath heap.mem mp.addr, mp.path.length + 1) ::
        (mp.addr, sizeofMountpoint) :: (freeMount heap mp.addr).live) ∧
      ∀ g ∈ heap.live, g.1 ∉ mountBlocks heap.mem mp →
        g ∈ (freeMount heap mp.addr).live ∧ ∀ x, g.1 ≤ x → x < g.1 + g.2 →
          (freeMount heap mp.addr).mem x = heap.mem x := by
  have hmounted := h.mounted mp hmp
  obtain ⟨⟨bs₁, h₁⟩, hkeeps₁⟩ := hinv.give_block hmounted.path_live
  have hstruct := hkeeps₁ _ hmounted.struct_live (h.blocks_nodup hmp).symm
  obtain ⟨hvalid, hkeeps₂⟩ := h₁.give_block hstruct.1
  refine ⟨hvalid, (hinv.give_live hmounted.path_live).trans ((h₁.give_live hstruct.1).cons _),
    fun g hg hne => ?_⟩
  simp only [mountBlocks, List.mem_cons, List.not_mem_nil, or_false, not_or] at hne
  obtain ⟨hg₁, hbytes₁⟩ := hkeeps₁ g hg hne.2
  obtain ⟨hg₂, hbytes₂⟩ := hkeeps₂ g hg₁ hne.1
  exact ⟨hg₂, fun x hle hlt => (hbytes₂ x hle hlt).trans (hbytes₁ x hle hlt)⟩

/-- The list is not touched by them. -/
theorem freeMount_list (h : MountsIn heap limit ll nodes mounts) (hinv : HeapInv heap bs)
    (hmp : mp ∈ mounts) :
    ListIn (freeMount heap mp.addr) ll nodes (mounts.map Mountpoint.addr) := by
  obtain ⟨-, -, hkeeps⟩ := h.freeMount_keeps hinv hmp
  have hlive : ∀ q ∈ ll :: nodes, (q, 24) ∈ heap.live := by
    intro q hq
    rcases List.mem_cons.mp hq with rfl | hq
    · exact h.header
    · exact h.list.owned q hq
  have hkept := fun q hq => hkeeps (q, 24) (hlive q hq) (h.list_ne hmp hq)
  exact h.list.congr (fun q hq => (hkept q hq).2)
    (fun x hle hlt => Or.inr ⟨_, (hkept ll (by simp)).1, hle, hlt⟩)
    fun q hq => (hkept q (by simp [hq])).1

section Head

variable {node : Nat} {tail contents : List Nat} {g : Nat × Nat}

/-- Blocks that are neither the mountpoint's nor its node stay when both are freed. -/
theorem head_kept (h : MountsIn heap limit ll (node :: tail) (mp :: rest)) (hinv : HeapInv heap bs)
    (hremoved : NodeRemoved (freeMount heap mp.addr) heap' ll 0 (node :: tail) contents)
    (hg : g ∈ heap.live) (hne : g.1 ∉ mountBlocks heap.mem mp) (hnode : g.1 ≠ node) :
    g ∈ heap'.live := by
  obtain ⟨-, -, hkeeps⟩ := h.freeMount_keeps hinv List.mem_cons_self
  obtain ⟨node', hfirst, hperm⟩ := hremoved.freed
  cases hfirst
  rcases List.mem_cons.mp (hperm.mem_iff.mp (hkeeps g hg hne).1) with rfl | hmem
  · exact absurd rfl hnode
  · exact hmem

/-- The other mountpoints keep their blocks and what is in them. -/
theorem head_frame (h : MountsIn heap limit ll (node :: tail) (mp :: rest)) (hinv : HeapInv heap bs)
    (hremoved : NodeRemoved (freeMount heap mp.addr) heap' ll 0 (node :: tail) contents)
    (hb : b ∈ rest) (hg : g ∈ heap.live) (hblock : g.1 ∈ mountBlocks heap.mem b) :
    g ∈ heap'.live ∧ ∀ x, g.1 ≤ x → x < g.1 + g.2 → heap'.mem x = heap.mem x := by
  obtain ⟨-, -, hkeeps⟩ := h.freeMount_keeps hinv List.mem_cons_self
  have hne := h.rest_ne hb hblock
  have hlist : ∀ p ∈ ll :: node :: tail, p ≠ g.1 := fun p hp heq =>
    h.list_ne (List.mem_cons_of_mem _ hb) hp (heq ▸ hblock)
  obtain ⟨hfreed, hbytes⟩ := hkeeps g hg hne
  refine ⟨h.head_kept hinv hremoved hg hne (hlist node (by simp)).symm, fun x hle hlt => ?_⟩
  have hapart : ∀ p ∈ ll :: node :: tail, (p, 24) ∈ heap.live → x < p ∨ p + 24 ≤ x := by
    intro p hp hp'
    have := hinv.live_apart hp' hg (hlist p hp)
    simp only at this
    omega
  rw [hremoved.others x (Or.inr ⟨g, hfreed, hle, hlt⟩) (hapart ll (by simp) h.header) fun p hp =>
    hapart p (List.mem_cons_of_mem _ hp) (h.list.owned p hp), hbytes x hle hlt]

/-- The table without the first mountpoint. -/
theorem head_table (h : MountsIn heap limit ll (node :: tail) (mp :: rest)) (hinv : HeapInv heap bs)
    (hremoved : NodeRemoved (freeMount heap mp.addr) heap' ll 0 (node :: tail)
      ((mp :: rest).map Mountpoint.addr)) : MountsIn heap' limit ll tail rest := by
  have hothers : ∀ b ∈ rest, Mounted heap' limit b ∧
      mountpointPath heap'.mem b.addr = mountpointPath heap.mem b.addr := by
    intro b hb
    have hmounted := h.mounted b (List.mem_cons_of_mem _ hb)
    obtain ⟨hstruct, hstructbytes⟩ :=
      h.head_frame hinv hremoved hb hmounted.struct_live (by simp [mountBlocks])
    obtain ⟨hpath, hpathbytes⟩ :=
      h.head_frame hinv hremoved hb hmounted.path_live (by simp [mountBlocks])
    exact ⟨hmounted.congr hstructbytes hpathbytes hstruct hpath, Mounted.path_eq hstructbytes⟩
  have hblocks : rest.flatMap (mountBlocks heap'.mem) = rest.flatMap (mountBlocks heap.mem) :=
    List.flatMap_congr fun b hb => by rw [mountBlocks, mountBlocks, (hothers b hb).2]
  have hheader : (ll, sizeofLl) ∈ heap'.live :=
    h.head_kept hinv hremoved h.header (h.list_ne List.mem_cons_self List.mem_cons_self)
      fun heq : ll = node => h.list.notMem (heq ▸ List.mem_cons_self)
  refine ⟨hremoved.list, hheader, fun b hb => (hothers b hb).1, ?_⟩
  rw [hblocks]
  exact h.distinct.sublist (((List.sublist_cons_self node tail).append
    (List.sublist_append_right (mountBlocks heap.mem mp) _)).cons_cons ll)

/-- The first mountpoint is removed as a whole. -/
theorem head_removed (h : MountsIn heap limit ll nodes (mp :: rest)) (hinv : HeapInv heap bs) :
    MountRemoved heap (removeNode (freeMount heap mp.addr) ll
      (Ll.first (freeMount heap mp.addr).mem ll)) limit ll nodes mp rest := by
  obtain ⟨⟨bs₂, h₂⟩, hfreed, -⟩ := h.freeMount_keeps hinv List.mem_cons_self
  have hlist := h.freeMount_list hinv List.mem_cons_self
  obtain ⟨node, tail, rfl⟩ : ∃ node tail, nodes = node :: tail := by
    cases nodes with
    | nil => exact absurd h.list.contents (by simp)
    | cons node tail => exact ⟨node, tail, rfl⟩
  have hfirst : Ll.first (freeMount heap mp.addr).mem ll = node := hlist.linked.forward.1
  rw [hfirst]
  have hnode : (node :: tail)[0]? = some node := rfl
  have hremoved := hlist.removeNode h₂ hnode
  obtain ⟨node', hnode', hperm⟩ := hremoved.freed
  cases hnode'
  exact ⟨hremoved.valid, ⟨tail, h.head_table hinv hremoved⟩, node, List.mem_cons_self,
    hfreed.trans ((hperm.cons _).cons _)⟩

end Head

end MountsIn

/-- A list of as many nodes as before has not lost a mountpoint. -/
theorem Unmounted.not_list {path : Path} {contents : List Nat}
    (hmounts : MountsIn heap limit ll nodes mounts) (hlist : ListIn heap' ll nodes contents) :
    ¬Unmounted heap heap' limit ll nodes mounts path := by
  rintro ⟨pre, mp, post, hsplit, -, hremoved⟩
  obtain ⟨nodes'', htable⟩ := hremoved.table
  have hsize := hlist.llSize.symm.trans htable.list.llSize
  have hlength := congrArg List.length hmounts.list.contents
  have hlength' := congrArg List.length htable.list.contents
  rw [hsplit] at hlength
  simp only [List.length_map, List.length_append, List.length_cons] at hlength hlength'
  omega

/-- A call that frees a block does something. -/
theorem NotMounted.not_freed {path : Path} {freed : List (Nat × Nat)}
    (h : NotMounted heap heap' mounts path) (hne : freed ≠ []) :
    ¬heap.live.Perm (freed ++ heap'.live) := by
  intro hperm
  have hlength := hperm.length_eq
  rw [h.2, List.length_append] at hlength
  exact hne (List.eq_nil_of_length_eq_zero (by omega))

section Found

variable {pathname : Path}

/-- Where the mountpoint that is found is the first, it is removed, and that is right when it
has the path. -/
theorem MountsIn.head_unmounted_iff (h : MountsIn heap limit ll nodes (mp :: rest))
    (hinv : HeapInv heap bs) (hfound : vfsGetMountpoint (mp :: rest) pathname = some mp)
    (hheap' : removeNode (freeMount heap mp.addr) ll (Ll.first (freeMount heap mp.addr).mem ll) =
      heap') :
    (Unmounted heap heap' limit ll nodes (mp :: rest) pathname ∨
        NotMounted heap heap' (mp :: rest) pathname) ↔ mp.path = pathname := by
  have hremoved := h.head_removed hinv
  rw [hheap'] at hremoved
  obtain ⟨node, -, hperm⟩ := hremoved.freed
  constructor
  · rintro (⟨pre, b, post, hsplit, hb, -⟩ | hnot)
    · exact vfsGetMountpoint_exact hfound (hsplit ▸ by simp) hb
    · exact absurd hperm (hnot.not_freed (List.cons_ne_nil _ [_, _]))
  · exact fun hpath => Or.inl ⟨[], mp, rest, rfl, hpath, hremoved⟩

/-- Elsewhere its node stays in the list, with its pointer to the freed mountpoint. -/
theorem MountsIn.behind_not_unmounted (h : MountsIn heap limit ll nodes mounts)
    (hinv : HeapInv heap bs) (hmem : mp ∈ mounts) :
    ¬(Unmounted heap (freeMount heap mp.addr) limit ll nodes mounts pathname ∨
      NotMounted heap (freeMount heap mp.addr) mounts pathname) := by
  obtain ⟨-, hfreed, -⟩ := h.freeMount_keeps hinv hmem
  rintro (hremoved | hnot)
  · exact Unmounted.not_list h (h.freeMount_list hinv hmem) hremoved
  · exact absurd hfreed (hnot.not_freed (List.cons_ne_nil _ [_]))

/-- `ll_remove_pointer` takes the mountpoint for the first of the list just when it is. -/
theorem MountsIn.head_addr_iff (h : MountsIn heap limit ll nodes mounts) (hmem : mp ∈ mounts) :
    (mounts.map Mountpoint.addr).head? = some mp.addr ↔ mounts.head? = some mp := by
  cases mounts with
  | nil => cases hmem
  | cons b rest =>
      simp only [List.map_cons, List.head?_cons, Option.some.injEq]
      refine ⟨fun heq => ?_, congrArg Mountpoint.addr⟩
      rcases List.mem_cons.mp hmem with rfl | hrest
      · rfl
      · exact absurd heq (h.addr_ne hrest)

end Found

/-- `vfs_umount` comes back. The mountpoint that it finds is freed, and taken out of the list
where it is the first. -/
theorem vfsUmountAt_eq {path : Nat} {pathname : Path} (hinv : HeapInv heap bs)
    (hmounts : MountsIn heap limit ll nodes mounts) (hpath : StringAt heap.mem limit path pathname)
    (hfuel : ∀ mp ∈ mounts, mp.path.length < fuel) :
    vfsUmountAt limit fuel heap ll path =
      some ((vfsGetMountpoint mounts pathname).elim (heap, some (-1)) fun mp =>
        (if mounts.head? = some mp then
          removeNode (freeMount heap mp.addr) ll (Ll.first (freeMount heap mp.addr).mem ll)
        else freeMount heap mp.addr, none)) := by
  have hlookup := (hmounts.mountList hinv).vfsGetMountpointAt hpath hfuel
  rw [vfsUmountAt, hlookup, Option.bind_some]
  cases hfound : vfsGetMountpoint mounts pathname with
  | none => rfl
  | some mp =>
      rw [vfsGetMountpoint_eq] at hfound
      have hmem := (firstMax_eq_some.mp hfound).mem
      have hne : ¬mp.addr = NULL := hinv.live_ne_null (hmounts.mounted mp hmem).struct_live
      have hfree : (heap.give (mountpointPath heap.mem mp.addr)).give mp.addr =
          freeMount heap mp.addr := rfl
      simp only [Option.elim_some, if_neg hne, hfree, Option.map_some,
        llRemovePointer_eq (hmounts.freeMount_list hinv hmem), hmounts.head_addr_iff hmem]

/-- Where no mountpoint behind the first is found, the table follows the sequence. -/
theorem vfsUmountAt_table {path : Nat} {pathname : Path} (hinv : HeapInv heap bs)
    (hmounts : MountsIn heap limit ll nodes mounts) (hpath : StringAt heap.mem limit path pathname)
    (hfuel : ∀ mp ∈ mounts, mp.path.length < fuel)
    (hfirst : ∀ mp ∈ vfsGetMountpoint mounts pathname, mounts.head? = some mp) :
    ∃ heap' nodes', vfsUmountAt limit fuel heap ll path =
        some (heap', (vfsUmount mounts pathname).2) ∧
      MountsIn heap' limit ll nodes' (vfsUmount mounts pathname).1 := by
  rw [vfsUmountAt_eq hinv hmounts hpath hfuel, vfsUmount]
  cases hfound : vfsGetMountpoint mounts pathname with
  | none => exact ⟨heap, nodes, rfl, hmounts⟩
  | some mp =>
      obtain ⟨rest, rfl⟩ : ∃ rest, mounts = mp :: rest :=
        List.head?_eq_some_iff.mp (hfirst mp hfound)
      obtain ⟨nodes', htable⟩ := (hmounts.head_removed hinv).table
      rw [Option.elim_some, if_pos List.head?_cons]
      refine ⟨_, nodes', rfl, ?_⟩
      simp only [removePointer, beq_self_eq_true, List.eraseP_cons_of_pos]
      exact htable

/-- `vfs_umount` does all that it should just when no mountpoint covers the path; but for the
answer it does so, too, when the first mountpoint has this path. -/
theorem vfsUmountAt_unmounted_iff {path : Nat} {pathname : Path} (hinv : HeapInv heap bs)
    (hmounts : MountsIn heap limit ll nodes mounts) (hpath : StringAt heap.mem limit path pathname)
    (hfuel : ∀ mp ∈ mounts, mp.path.length < fuel) :
    ∃ heap' res, vfsUmountAt limit fuel heap ll path = some (heap', res) ∧
      (((Unmounted heap heap' limit ll nodes mounts pathname ∧ res = some 0) ∨
          (NotMounted heap heap' mounts pathname ∧ res = some (-1))) ↔
        ∀ mp ∈ mounts, ¬mp.path.Covers pathname) ∧
      ((Unmounted heap heap' limit ll nodes mounts pathname ∨
          NotMounted heap heap' mounts pathname) ↔
        (∀ mp ∈ mounts, ¬mp.path.Covers pathname) ∨
          ∃ mp, mounts.head? = some mp ∧ mp.path = pathname) := by
  rw [vfsUmountAt_eq hinv hmounts hpath hfuel]
  cases hfound : vfsGetMountpoint mounts pathname with
  | none =>
      have hnone : ∀ mp ∈ mounts, ¬mp.path.Covers pathname := by
        rw [vfsGetMountpoint_eq] at hfound
        exact firstMax_eq_none.mp hfound
      have hnot : NotMounted heap heap mounts pathname :=
        ⟨fun mp hmp heq => hnone mp hmp (heq ▸ mp.path.covers_self), rfl⟩
      exact ⟨heap, some (-1), rfl, iff_of_true (Or.inr ⟨hnot, rfl⟩) hnone,
        iff_of_true (Or.inr hnot) (Or.inl hnone)⟩
  | some mp =>
      have hmax : IsFirstMax (fun mp : Mountpoint => mp.path.Covers pathname)
          (fun mp => mp.path.length) mounts mp := by
        rw [vfsGetMountpoint_eq] at hfound
        exact firstMax_eq_some.mp hfound
      have hmem := hmax.mem
      obtain ⟨-, -, -, hcovers, -⟩ := hmax
      have hsome : ¬∀ mp ∈ mounts, ¬mp.path.Covers pathname := fun hall => hall mp hmem hcovers
      -- no value is returned, so the answer is never right
      have hanswer : ∀ heap', ¬((Unmounted heap heap' limit ll nodes mounts pathname ∧
          (none : Option Int) = some 0) ∨
            (NotMounted heap heap' mounts pathname ∧ (none : Option Int) = some (-1))) := by
        rintro heap' (⟨-, hres⟩ | ⟨-, hres⟩) <;> cases hres
      refine ⟨_, none, rfl, iff_of_false (hanswer _) hsome, ?_⟩
      rw [or_iff_right hsome]
      cases mounts with
      | nil => cases hmem
      | cons b rest =>
          simp only [List.head?_cons, Option.some.injEq, exists_eq_left']
          split
          · rename_i hhead
            cases hhead
            exact hmounts.head_unmounted_iff hinv hfound rfl
          · rename_i hhead
            refine iff_of_false (hmounts.behind_not_unmounted hinv hmem) fun hpathname => ?_
            rw [vfsGetMountpoint_head hpathname] at hfound
            exact hhead (Option.some.inj hfound)

end Unmount

/-- `/a` at 0x310. -/
def unmountMemory : ByteMemory := fun x => if x = 0x310 then 0x2f else if x = 0x311 then 0x61 else 0

def unmountLimit (p : Nat) : Nat := if p = 0x310 then 2 else 1

def initialMount : Mountpoint := ⟨0x1060, 0, rootPath, 0x600⟩

/-- The table with `/` alone, as `vfs_init` leaves it. -/
def rootMounted : Option HeapState :=
  (heapMachine 0x1000).exec (newHeap unmountMemory 0x1000 0x1000)
    ([.alloc sizeofLl, .alloc sizeofMountpoint, .alloc 2, .alloc sizeofLlNode] ++
      ([(0x1020, 0xe0), (0x1021, 0x10), (0x1028, 0xe0), (0x1029, 0x10), (0x1030, 1), (0x1068, 0xa0),
        (0x1069, 0x10), (0x1071, 6), (0x10a0, 0x2f), (0x10e0, 0x60), (0x10e1, 0x10)].map
        fun byte : Nat × UInt8 => .store byte.1 byte.2))

theorem rootMounted_table {heap : HeapState} (hheap : rootMounted = some heap) :
    (∃ bs, HeapInv heap bs) ∧ MountsIn heap unmountLimit 0x1020 [0x10e0] [initialMount] ∧
      StringAt heap.mem unmountLimit 0x310 dirA := by
  have hfields : rootMounted.map (fun heap => (heap.live,
      [Ll.first heap.mem 0x1020, Ll.last heap.mem 0x1020, Ll.size heap.mem 0x1020,
        LlNode.content heap.mem 0x10e0, LlNode.next heap.mem 0x10e0, LlNode.prev heap.mem 0x10e0,
        MountpointStruct.device heap.mem 0x1060, mountpointPath heap.mem 0x1060,
        MountpointStruct.operations heap.mem 0x1060],
      decide ((∀ i ≤ 1, heap.mem (0x10a0 + i) = [0x2f].getD i 0) ∧
        ∀ i ≤ 2, heap.mem (0x310 + i) = [0x2f, 0x61].getD i 0))) =
    some ([(0x10e0, 24), (0x10a0, 2), (0x1060, 24), (0x1020, 24)],
      [0x10e0, 0x10e0, 1, 0x1060, 0, 0, 0, 0x10a0, 0x600], true) := by decide +kernel
  rw [hheap, Option.map_some, Option.some.injEq] at hfields
  simp only [Prod.mk.injEq, List.cons.injEq, and_true, decide_eq_true_eq] at hfields
  obtain ⟨hlive, ⟨hfirst, hlast, hsize, hcontent, hnext, hprev, hdevice, hpath, hops⟩, hroot, hdir⟩ :=
    hfields
  obtain ⟨-, hinv⟩ := heapMachine_inv (by decide) (by decide) (Nat.le_refl 0x1000)
    (by decide +kernel) hheap
  have hlist : ListIn heap 0x1020 [0x10e0] [0x1060] := by
    refine ⟨by decide, ⟨hsize, ⟨hfirst, by decide, hnext⟩, ⟨hlast, by decide, hprev⟩⟩, ?_, ?_,
      fun x hle hlt => Or.inr ⟨(0x1020, 24), ?_, hle, hlt⟩, by decide⟩
    · rw [List.map_cons, List.map_nil, hcontent]
    · simp [hlive]
    · simp [hlive]
  refine ⟨hinv, ⟨hlist, by simp [hlive], fun mp hmp => ?_, ?_⟩, by decide, ⟨by decide, hdir⟩, rfl⟩
  · rw [List.mem_singleton.mp hmp]
    have hptr : mountpointPath heap.mem initialMount.addr = 0x10a0 := hpath
    refine ⟨hdevice, hops, ?_, by simp [hlive, initialMount], by
      rw [hptr, hlive]
      decide⟩
    rw [hptr]
    exact ⟨by decide, ⟨by decide, hroot⟩, rfl⟩
  · have hptr : mountpointPath heap.mem initialMount.addr = 0x10a0 := hpath
    rw [List.flatMap_singleton, mountBlocks, hptr]
    decide

/-- `a`, at 0x311. -/
def nameA : Path := ⟨[0x61], by decide⟩

theorem vfsUmountAt_unmounted_iff_nameA : ∃ heap heap', rootMounted = some heap ∧
    vfsUmountAt unmountLimit 2 heap 0x1020 0x311 = some (heap', some (-1)) ∧
      NotMounted heap heap' [initialMount] nameA := by
  have hsome : rootMounted.isSome := by decide +kernel
  obtain ⟨heap, hheap⟩ := Option.isSome_iff_exists.mp hsome
  obtain ⟨⟨bs, hinv⟩, htable, hdir⟩ := rootMounted_table hheap
  have hname : StringAt heap.mem unmountLimit 0x311 nameA := by
    refine ⟨by decide, (hdir.bytes.tail (by decide)).congr fun i _ => ?_, rfl⟩
    rw [bytesFrom, bytesFrom, ← Nat.add_assoc]
  obtain ⟨heap', res, humount, hiff, -⟩ :=
    @vfsUmountAt_unmounted_iff heap bs unmountLimit 2 0x1020 [0x10e0] [initialMount] 0x311 nameA hinv
      htable hname (by decide)
  rcases hiff.mpr (by decide) with ⟨⟨pre, mp, post, hsplit, hpath, -⟩, -⟩ | ⟨hnot, rfl⟩
  · have hmem : mp ∈ [initialMount] := by
      rw [hsplit]
      simp
    rw [List.mem_singleton.mp hmem] at hpath
    exact absurd hpath (by decide)
  · exact ⟨heap, heap', hheap, humount, hnot⟩

/-- `/a` is not mounted, but `/` is unmounted for it. -/
theorem rootMount_unmounted : ∃ heap heap', rootMounted = some heap ∧
    MountsIn heap unmountLimit 0x1020 [0x10e0] [initialMount] ∧
      StringAt heap.mem unmountLimit 0x310 dirA ∧
      vfsUmountAt unmountLimit 2 heap 0x1020 0x310 = some (heap', none) ∧
      llSize heap'.mem 0x1020 = 0 ∧ heap'.live = [(0x1020, 24)] ∧
      ¬((Unmounted heap heap' unmountLimit 0x1020 [0x10e0] [initialMount] dirA ∧
          (none : Option Int) = some 0) ∨
        (NotMounted heap heap' [initialMount] dirA ∧ (none : Option Int) = some (-1))) := by
  have hrun : (rootMounted.bind fun heap => vfsUmountAt unmountLimit 2 heap 0x1020 0x310).map
      (fun r => (llSize r.1.mem 0x1020, r.1.live, r.2)) = some (0, [(0x1020, 24)], none) := by
    decide +kernel
  obtain ⟨⟨heap', res⟩, hbind, heq⟩ := Option.map_eq_some_iff.mp hrun
  obtain ⟨heap, hheap, humount⟩ := Option.bind_eq_some_iff.mp hbind
  simp only [Prod.mk.injEq] at heq
  obtain ⟨hsize, hlive, rfl⟩ := heq
  obtain ⟨-, htable, hpath⟩ := rootMounted_table hheap
  refine ⟨heap, heap', hheap, htable, hpath, humount, hsize, hlive, ?_⟩
  rintro (⟨-, hres⟩ | ⟨-, hres⟩) <;> cases hres

end BayosKernel
