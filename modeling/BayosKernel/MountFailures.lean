import BayosKernel.InitramfsOpen
import BayosKernel.MountTable

/-!
Calls of `vfs_mount` and of the `open` of the initramfs that fail: each frees what it
has taken, the last block first, so that `free` undoes the splits of `alloc`.
-/

namespace BayosKernel

open Foundation BlockList

section Mount

open MountpointStruct

variable {fuel : Nat} {heap heap' heap₁ heap₂ : HeapState} {bs bs₁ bs₂ : List Block}
  {ll c n mp chars path device operations archive out : Nat} {cs : List UInt8} {res : Int}

/-- `ll_add_back` fails without a trace. -/
theorem llAddBack_cases (hinv : HeapInv heap bs) (hfuel : heap.al.size ≤ fuel) :
    ∃ heap' res, llAddBack fuel heap ll c = some (heap', res) ∧
      ((res = -1 ∧ heap' = heap) ∨ res = 0) := by
  by_cases hll : ll = NULL
  · exact ⟨heap, -1, by rw [llAddBack, if_pos hll], Or.inl ⟨rfl, rfl⟩⟩
  · obtain ⟨heap₁, node, htake⟩ := hinv.take_some (n := sizeofLlNode) hfuel (by decide)
    rw [llAddBack, if_neg hll, htake, Option.map_some]
    rcases hinv.take_taken hfuel (by decide) htake with ⟨rfl, rfl⟩ | ⟨bs₁, ht⟩
    · exact ⟨_, _, rfl, Or.inl ⟨rfl, rfl⟩⟩
    · simp only [if_neg ht.ne_null]
      exact ⟨_, _, rfl, Or.inr rfl⟩

/-- `vfs_mount` comes back, and with -1 as it was called. -/
theorem vfsMountAt_cases (hinv : HeapInv heap bs) (hfuel : heap.al.size ≤ fuel)
    (hpath : CString (bytesFrom heap.mem path) cs)
    (hclient : ∀ i ≤ cs.length, heap.Writable (path + i)) (hlength : cs.length < fuel)
    (hshort : cs.length < 0x800000000000) :
    ∃ heap' res, vfsMountAt fuel heap ll device path operations = some (heap', res) ∧
      ((res = -1 ∧ Untouched heap heap' bs) ∨ res = 0) := by
  obtain ⟨heap₁, mp, htake⟩ := hinv.take_some (n := sizeofMountpoint) hfuel (by decide)
  rw [vfsMountAt, htake, Option.bind_some]
  rcases hinv.take_taken hfuel (by decide) htake with ⟨rfl, rfl⟩ | ⟨bs₁, ht⟩
  · exact ⟨heap₁, -1, rfl, Or.inl ⟨rfl, Untouched.refl hinv⟩⟩
  simp only [if_neg ht.ne_null]
  have hmp : ∀ x, heap.Writable x → x < mp ∨ mp + 24 ≤ x := fun x hx => ht.apart hx
  -- the first two fields
  obtain ⟨m₁, hm₁⟩ : ∃ m₁, setOperations (setDevice heap₁.mem mp device) mp operations = m₁ :=
    ⟨_, rfl⟩
  have hframe₁ : ∀ x, x < mp ∨ mp + 24 ≤ x → m₁ x = heap₁.mem x := fun x hx => by
    rw [← hm₁, setOperations, setDevice, ByteMemory.store_outside _ (by omega),
      ByteMemory.store_outside _ (by omega)]
  have h₁ : HeapInv { heap₁ with mem := m₁ } bs₁ := ht.inv.of_block ht.mem hframe₁
  have hkeeps₁ : heap.Keeps { heap₁ with mem := m₁ } :=
    ((HeapState.Keeps.refl heap).take hinv ht).write hmp hframe₁
  have hfuel₁ : heap₁.al.size ≤ fuel := by
    rw [ht.al]
    exact hfuel
  have hfield : mp ≤ mp + 8 ∧ mp + 8 + 8 ≤ mp + sizeofMountpoint := by
    simp only [sizeofMountpoint]
    omega
  obtain ⟨heap₂, chars, hcopy, hcases⟩ := allocPath_cases h₁ hfuel₁ ht.mem hfield
    (hkeeps₁.cstring hpath hclient)
    (fun i hi => ⟨(hkeeps₁ _ (hclient i hi)).2, by have := hmp _ (hclient i hi); omega⟩) hlength
    hshort
  rw [hm₁, hcopy, Option.bind_some]
  rcases hcases with ⟨rfl, rfl, -⟩ | ⟨bs₂, hcopied⟩
  · have hout : ∀ x, x < mp ∨ mp + 24 ≤ x → m₁.store 8 (mp + 8) NULL x = m₁ x :=
      fun x hx => ByteMemory.store_outside m₁ (by omega)
    exact ⟨_, -1, rfl, Or.inl ⟨rfl, ht.untouched hinv (h₁.of_block ht.mem hout) ht.al ht.live
      (hkeeps₁.write hmp hout)⟩⟩
  · obtain ⟨heap₁', ht₂⟩ := hcopied.taken
    have hkeeps₂ : heap.Keeps heap₂ := fun x hx =>
      have hx₁ := hkeeps₁ x hx
      have hx₂ := hcopied.keeps x hx₁.2
      have hout := hmp x hx
      ⟨(hx₂.1 (by omega)).trans hx₁.1, hx₂.2⟩
    have hfuel₂ : heap₂.al.size ≤ fuel := by
      rw [hcopied.al]
      exact hfuel₁
    simp only [if_neg ht₂.ne_null]
    obtain ⟨heap₃, res, hadd, ⟨rfl, rfl⟩ | rfl⟩ :=
      @llAddBack_cases fuel heap₂ bs₂ ll mp hcopied.inv hfuel₂
    · -- no room for the node: both blocks go back
      obtain ⟨hinv₁, hlive₁⟩ := ht₂.undo h₁ hcopied.inv hcopied.al hcopied.live
      have hmem : (chars, cs.length + 1) ∈ heap₃.live := by
        rw [hcopied.live]
        exact List.mem_cons_self
      refine ⟨_, -1, ?_, Or.inl ⟨rfl, ht.untouched hinv hinv₁ (hcopied.al.trans ht.al)
        (hlive₁.trans ht.live) (hkeeps₂.give hcopied.inv hmem fun x hx => ?_)⟩⟩
      · simp only [hadd, Option.map_some, mountpointPath, hcopied.pointer]
        rfl
      · exact ht₂.apart (hkeeps₁ x hx).2
    · refine ⟨heap₃, 0, ?_, Or.inr rfl⟩
      simp only [hadd, Option.map_some]
      rfl

end Mount

/-- When `vfs_mount` returns -1, or `open` NULL, the nodes of the heap and every mount table in
it are those before the call. -/
theorem failedCalls_untouched {fuel ll device path operations : Nat} {heap : HeapState}
    {bs : List Block} {cs : List UInt8} (hinv : HeapInv heap bs) (hfuel : heap.al.size ≤ fuel)
    (hpath : CString (bytesFrom heap.mem path) cs)
    (hclient : ∀ i ≤ cs.length, heap.Writable (path + i)) (hlength : cs.length < fuel)
    (hshort : cs.length < 0x800000000000) :
    (∃ heap' res, vfsMountAt fuel heap ll device path operations = some (heap', res) ∧
      (res = -1 → Untouched heap heap' bs ∧ ∀ limit ll' nodes mounts,
        MountsIn heap limit ll' nodes mounts → MountsIn heap' limit ll' nodes mounts)) ∧
    ∀ archive out heap', initramfsOpenAt fuel archive out heap path = some (heap', NULL) →
      Untouched heap heap' bs ∧ ∀ limit ll' nodes mounts,
        MountsIn heap limit ll' nodes mounts → MountsIn heap' limit ll' nodes mounts := by
  constructor
  · obtain ⟨heap', res, hmount, ⟨-, hsame⟩ | rfl⟩ :=
      @vfsMountAt_cases fuel heap bs ll path device operations cs hinv hfuel hpath hclient hlength
        hshort
    · exact ⟨heap', res, hmount, fun _ => ⟨hsame, fun _ _ _ _ h => h.untouched hsame⟩⟩
    · exact ⟨heap', 0, hmount, fun hfail => absurd hfail (by decide)⟩
  · intro archive out heap' hopen
    obtain ⟨⟨size, data⟩, hlookup, -⟩ := Option.bind_eq_some_iff.mp hopen
    obtain ⟨heap₁, file, hopen₁, ⟨-, hsame, -⟩ | ⟨hne, -⟩⟩ :=
      initramfsOpenAt_cases hinv hfuel hpath hclient hlength hshort hlookup
    · rw [hopen] at hopen₁
      cases hopen₁
      exact ⟨hsame, fun _ _ _ _ h => h.untouched hsame⟩
    · rw [hopen] at hopen₁
      cases hopen₁
      exact absurd rfl hne

/-- `/` at 0x300. -/
def rootMemory : ByteMemory := fun x => if x = 0x300 then 0x2f else 0

/-- There is room for the mountpoint and its path, but not for a node. -/
theorem failedCalls_untouched_node : ∃ heap',
    vfsMountAt 0x80 (newHeap rootMemory 0x1000 0x80) 0x500 0 0x300 0x600 = some (heap', -1) ∧
      Untouched (newHeap rootMemory 0x1000 0x80) heap' [⟨0x60, true⟩] := by
  have hpath : CString (bytesFrom (newHeap rootMemory 0x1000 0x80).mem 0x300) [0x2f] :=
    ⟨by decide, by decide +kernel⟩
  obtain ⟨⟨heap', res, hmount, hsame⟩, -⟩ := @failedCalls_untouched 0x80 0x500 0 0x300 0x600
    (newHeap rootMemory 0x1000 0x80) [⟨0x60, true⟩] [0x2f]
    (newHeap_inv rootMemory (by decide) (by decide)) (by decide) hpath (by decide) (by decide)
    (by decide)
  have hres : (vfsMountAt 0x80 (newHeap rootMemory 0x1000 0x80) 0x500 0 0x300 0x600).map Prod.snd =
      some (-1) := by decide +kernel
  rw [hmount, Option.map_some, Option.some.injEq] at hres
  simp only at hres
  exact ⟨heap', by rw [hmount, hres], (hsame hres).1⟩

end BayosKernel
