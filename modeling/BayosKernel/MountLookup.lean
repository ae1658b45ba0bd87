import BayosKernel.LinkedList
import BayosKernel.StringReads
import BayosKernel.VfsOwnership

/-!
`vfs_get_mountpoint` over memory: the list of `ll.c`, the structures it leads to
and the characters that are read. `limit` gives for each string the offset of the
last byte that may be read through its pointer.
-/

namespace BayosKernel

open Foundation

/-- `mp->path`. -/
def mountpointPath (m : ByteMemory) (mp : Nat) : Nat := m.load 8 (mp + 8)

/-- The characters from `p` on that may be read. -/
def charsUpTo (m : ByteMemory) (limit : Nat → Nat) (p : Nat) : Nat → Option UInt8 :=
  fun i => if i ≤ limit p then some (m (p + i)) else none

/-- The value of `matches`; the operands of `||` are read only where they are needed. -/
def mountpointMatches (path mpPath : Nat → Option UInt8) (mpLen : Nat) : Option Bool :=
  (strncmpIn path mpPath mpLen).bind fun cmp =>
    if cmp ≠ 0 then some false
    else if mpLen = 1 then some true
    else
      (path mpLen).bind fun c =>
        if c = 0 then some true else (path mpLen).map fun c => decide (c = 0x2f)

section

variable (limit : Nat → Nat) (fuel : Nat) (m : ByteMemory) (ll path : Nat)

/-- The loop of `vfs_get_mountpoint` from `i` on, with `left` turns to go. -/
def getMountpointLoop : Nat → Nat → Nat → Nat → Option Nat
  | 0, _, best, _ => some best
  | left + 1, i, best, bestLen =>
      (llGet m ll i).bind fun mp =>
        if mp = NULL ∨ mountpointPath m mp = NULL then getMountpointLoop left (i + 1) best bestLen
        else
          let mpPath := charsUpTo m limit (mountpointPath m mp)
          (strlenIn fuel mpPath).bind fun mpLen =>
            (mountpointMatches (charsUpTo m limit path) mpPath mpLen).bind fun found =>
              if found ∧ (best = NULL ∨ mpLen > bestLen) then
                getMountpointLoop left (i + 1) mp mpLen
              else getMountpointLoop left (i + 1) best bestLen

/-- `vfs_get_mountpoint`; `none` where it reads behind a limit or through NULL. -/
def vfsGetMountpointAt : Option Nat :=
  if path = NULL then some NULL else getMountpointLoop limit fuel m ll path (llSize m ll) 0 NULL 0

end

/-- The string at `p`, whose terminator is the last byte that may be read. -/
structure StringAt (m : ByteMemory) (limit : Nat → Nat) (p : Nat) (path : Path) : Prop where
  ne_null : p ≠ NULL
  bytes : CString (bytesFrom m p) path.chars
  limit : limit p = path.length

/-- A list of mountpoints, with its nodes. -/
structure MountList (m : ByteMemory) (limit : Nat → Nat) (ll : Nat) (nodes : List Nat)
    (mounts : List Mountpoint) : Prop where
  ne_null : ll ≠ NULL
  size : Ll.size m ll = nodes.length
  chain : Chain (LlNode.next m) NULL (Ll.first m ll) nodes
  contents : nodes.map (LlNode.content m) = mounts.map Mountpoint.addr
  addrs : ∀ mp ∈ mounts, mp.addr ≠ NULL
  paths : ∀ mp ∈ mounts, StringAt m limit (mountpointPath m mp.addr) mp.path

namespace Path

/-- `/`, or an absolute path without a slash at its end. -/
structure IsMountPath (p : Path) : Prop where
  absolute : p.chars.head? = some 0x2f
  trailing : p.chars = [0x2f] ∨ p.chars.getLast? ≠ some 0x2f

/-- The path of a mountpoint is a prefix of `path` by components. -/
def ComponentPrefix (mp path : Path) : Prop :=
  path = mp ∨ (∃ rest, path.chars = mp.chars ++ 0x2f :: rest) ∨
    (mp.chars = [0x2f] ∧ path.chars.head? = some 0x2f)

end Path

/-- `ll_get` of a list follows the chain to the node. -/
theorem llGetFrom_chain {m : ByteMemory} {first node i : Nat} {nodes : List Nat}
    (h : Chain (LlNode.next m) NULL first nodes) (hnode : nodes[i]? = some node) :
    llGetFrom m i first = some (LlNode.content m node) := by
  induction nodes generalizing first i with
  | nil => cases hnode
  | cons x rest ih =>
      obtain ⟨rfl, hne, hrest⟩ := h
      cases i with
      | zero =>
          cases hnode
          rw [llGetFrom, if_neg hne]
      | succ i =>
          rw [llGetFrom, if_neg hne]
          exact ih hrest hnode

theorem strncmpFrom_eq_zero {s1 s2 : Nat → UInt8} {i left : Nat}
    (hchars : ∀ k, i ≤ k → k < i + left → s2 k ≠ 0) :
    strncmpFrom s1 s2 i left = 0 ↔ ∀ k, i ≤ k → k < i + left → s1 k = s2 k := by
  induction left generalizing i with
  | zero =>
      simp only [strncmpFrom, true_iff]
      intro k hle hlt
      omega
  | succ left ih =>
      have hchar := hchars i (Nat.le_refl i) (by omega)
      rw [strncmpFrom]
      by_cases hhead : s1 i = s2 i
      · rw [if_neg fun hne => hne hhead, if_neg fun hzero => hchar (hhead.symm.trans hzero),
          ih fun k hle hlt => hchars k (by omega) (by omega)]
        refine ⟨fun h k hle hlt => ?_, fun h k hle hlt => h k (by omega) (by omega)⟩
        by_cases hk : k = i
        · rw [hk]
          exact hhead
        · exact h k (by omega) (by omega)
      · have hdiffer : ((s1 i).toNat : Int) - (s2 i).toNat ≠ 0 := by
          intro hzero
          exact hhead (UInt8.toNat_inj.mp (by omega))
        rw [if_pos hhead]
        exact ⟨fun h => absurd h hdiffer, fun h => absurd (h i (Nat.le_refl i) (by omega)) hhead⟩

namespace Path

variable {mp path : Path}

/-- What `strncmp` finds over the length of a mountpoint's path. -/
theorem strncmp_prefix : strncmp path.bytes mp.bytes mp.length = 0 ↔ mp.chars <+: path.chars := by
  have hchars : ∀ k, 0 ≤ k → k < 0 + mp.length → mp.bytes k ≠ 0 := fun k _ hk hzero => by
    have := bytes_eq_zero.mp hzero
    omega
  rw [strncmp, strncmpFrom_eq_zero hchars]
  constructor
  · intro hsame
    have hle : mp.length ≤ path.length := by
      refine Nat.le_of_not_lt fun hlt => hchars path.length (Nat.zero_le _) (by omega) ?_
      rw [← hsame _ (Nat.zero_le _) (by omega)]
      exact bytes_eq_zero.mpr (Nat.le_refl _)
    refine List.prefix_iff_getElem.mpr ⟨hle, fun k hk => ?_⟩
    have hbyte := hsame k (Nat.zero_le _) (by rw [Nat.zero_add]; exact hk)
    rw [bytes, bytes, List.getD_eq_getElem _ _ hk,
      List.getD_eq_getElem _ _ (Nat.lt_of_lt_of_le hk hle)] at hbyte
    exact hbyte.symm
  · rintro ⟨rest, hrest⟩ k - hk
    rw [Nat.zero_add] at hk
    rw [bytes, bytes, ← hrest, List.getD_append _ _ _ _ hk]

/-- The test of `vfs_get_mountpoint` decides the prefix by components. -/
theorem IsMountPath.covers_iff (h : mp.IsMountPath) : mp.Covers path ↔ ComponentPrefix mp path := by
  have hroot : mp.length = 1 ↔ mp.chars = [0x2f] := by
    refine ⟨fun hone => ?_, fun hchars => by rw [length, hchars]; rfl⟩
    obtain ⟨c, hc⟩ := List.length_eq_one_iff.mp hone
    have habsolute := h.absolute
    rw [hc, List.head?_cons] at habsolute
    rw [hc, Option.some.inj habsolute]
  rw [Covers, strncmp_prefix, ComponentPrefix]
  constructor
  · rintro ⟨⟨rest, hrest⟩, hone | hend | hslash⟩
    · have hchars := hroot.mp hone
      refine Or.inr (Or.inr ⟨hchars, ?_⟩)
      rw [← hrest, hchars]
      rfl
    · have hle := bytes_eq_zero.mp hend
      have hnil : rest = [] := by
        rw [length, ← hrest, List.length_append] at hle
        exact List.eq_nil_of_length_eq_zero (by rw [length] at hle; omega)
      rw [hnil, List.append_nil] at hrest
      obtain ⟨cs, hcs⟩ := mp
      obtain ⟨ds, hds⟩ := path
      cases hrest
      exact Or.inl rfl
    · refine Or.inr (Or.inl ?_)
      rw [bytes, length, ← hrest, List.getD_append_right _ _ _ _ (Nat.le_refl _),
        Nat.sub_self] at hslash
      cases rest with
      | nil => simp at hslash
      | cons c rest =>
          rw [List.getD_cons_zero] at hslash
          exact ⟨rest, by rw [← hrest, hslash]⟩
  · rintro (rfl | ⟨rest, hrest⟩ | ⟨hchars, hhead⟩)
    · exact ⟨List.prefix_refl _, Or.inr (Or.inl (bytes_eq_zero.mpr (Nat.le_refl _)))⟩
    · refine ⟨⟨_, hrest.symm⟩, Or.inr (Or.inr ?_)⟩
      rw [bytes, hrest, length, List.getD_append_right _ _ _ _ (Nat.le_refl _), Nat.sub_self,
        List.getD_cons_zero]
    · refine ⟨?_, Or.inl (hroot.mpr hchars)⟩
      cases hpath : path.chars with
      | nil =>
          rw [hpath] at hhead
          cases hhead
      | cons c rest =>
          rw [hpath] at hhead
          cases hhead
          exact ⟨rest, by rw [hchars]; rfl⟩

end Path

section Lookup

variable {m : ByteMemory} {limit : Nat → Nat} {fuel : Nat}

namespace StringAt

variable {p : Nat} {path : Path}

theorem stringIn (h : StringAt m limit p path) : StringIn (charsUpTo m limit p) path.chars := by
  refine ⟨path.terminated, fun i hi => ?_⟩
  rw [charsUpTo, if_pos (by rw [h.limit]; exact hi), ← h.bytes.bytes i hi, bytesFrom]

end StringAt

/-- `matches` is read off the strings alone. -/
theorem mountpointMatches_eq {s t : Nat → Option UInt8} {mp path : Path}
    (hs : StringIn s path.chars) (ht : StringIn t mp.chars) :
    mountpointMatches s t mp.length = some (decide (mp.Covers path)) := by
  have hcmp : strncmpIn s t mp.length = some (strncmp path.bytes mp.bytes mp.length) :=
    hs.strncmpIn ht mp.length
  rw [mountpointMatches, hcmp, Option.bind_some]
  by_cases hzero : strncmp path.bytes mp.bytes mp.length = 0
  · -- the prefix ends inside the path or at its terminator
    have hle : mp.length ≤ path.length := (Path.strncmp_prefix.mp hzero).length_le
    have hread : s mp.length = some (path.bytes mp.length) := hs.bytes _ hle
    simp only [Path.Covers, hzero, ne_eq, not_true_eq_false, if_false, true_and, hread,
      Option.bind_some, Option.map_some]
    by_cases hone : mp.length = 1
    · simp [hone]
    · by_cases hend : path.bytes mp.length = 0
      · simp [hone, hend]
      · simp [hone, hend]
  · simp [Path.Covers, hzero]

theorem getMountpointLoop_eq {ll pathPtr : Nat} {path : Path} {all : List Mountpoint}
    (hpath : StringAt m limit pathPtr path)
    (hget : ∀ i mp, all[i]? = some mp → llGet m ll i = some mp.addr)
    (haddrs : ∀ mp ∈ all, mp.addr ≠ NULL)
    (hpaths : ∀ mp ∈ all, StringAt m limit (mountpointPath m mp.addr) mp.path)
    (hfuel : ∀ mp ∈ all, mp.path.length < fuel) :
    ∀ (rest : List Mountpoint) (i : Nat) (best : Option Mountpoint) (bestLen : Nat),
      all.drop i = rest → (∀ b ∈ best, b.addr ≠ NULL) →
        getMountpointLoop limit fuel m ll pathPtr rest.length i (best.elim NULL Mountpoint.addr)
            bestLen =
          some ((getMountpointFrom path rest best bestLen).elim NULL Mountpoint.addr) := by
  intro rest
  induction rest with
  | nil => exact fun i best bestLen _ _ => rfl
  | cons mp rest ih =>
      intro i best bestLen hdrop hbest
      have hmp : all[i]? = some mp := by rw [← List.head?_drop, hdrop, List.head?_cons]
      have hmem : mp ∈ all := List.mem_of_getElem? hmp
      have hrest : all.drop (i + 1) = rest := by rw [← List.tail_drop, hdrop, List.tail_cons]
      have hstring := hpaths mp hmem
      have hnull : ¬(mp.addr = NULL ∨ mountpointPath m mp.addr = NULL) := fun hor =>
        hor.elim (haddrs mp hmem) hstring.ne_null
      have hempty : best.elim NULL Mountpoint.addr = NULL ↔ best = none := by
        cases best with
        | none => simp
        | some b => simpa using hbest b rfl
      have hlen : strlenIn fuel (charsUpTo m limit (mountpointPath m mp.addr)) =
          some mp.path.length := hstring.stringIn.strlenIn (hfuel mp hmem)
      rw [List.length_cons, getMountpointLoop, hget i mp hmp, Option.bind_some, if_neg hnull]
      simp only [hlen, Option.bind_some,
        mountpointMatches_eq hpath.stringIn hstring.stringIn, decide_eq_true_eq, hempty]
      rw [getMountpointFrom]
      split
      · exact ih (i + 1) (some mp) mp.path.length hrest fun b hb => by
          cases hb
          exact haddrs mp hmem
      · exact ih (i + 1) best bestLen hrest hbest

namespace MountList

variable {ll : Nat} {nodes : List Nat} {mounts : List Mountpoint}

theorem llSize (h : MountList m limit ll nodes mounts) : llSize m ll = mounts.length := by
  have hlength := congrArg List.length h.contents
  rw [List.length_map, List.length_map] at hlength
  rw [BayosKernel.llSize, if_neg h.ne_null, h.size, hlength]

theorem llGet (h : MountList m limit ll nodes mounts) {i : Nat} {mp : Mountpoint}
    (hmp : mounts[i]? = some mp) : llGet m ll i = some mp.addr := by
  have hi : i < mounts.length := (List.getElem?_eq_some_iff.mp hmp).1
  have hcontent : (nodes.map (LlNode.content m))[i]? = some mp.addr := by
    rw [h.contents, List.getElem?_map, hmp, Option.map_some]
  rw [List.getElem?_map] at hcontent
  obtain ⟨node, hnode, haddr⟩ := Option.map_eq_some_iff.mp hcontent
  rw [BayosKernel.llGet, if_neg, llGetFrom_chain h.chain hnode, haddr]
  rw [h.llSize]
  exact fun hor => hor.elim h.ne_null (Nat.not_le_of_lt hi)

/-- The search over memory is the one over the sequence of mountpoints. -/
theorem vfsGetMountpointAt (h : MountList m limit ll nodes mounts) {pathPtr : Nat} {path : Path}
    (hpath : StringAt m limit pathPtr path) (hfuel : ∀ mp ∈ mounts, mp.path.length < fuel) :
    vfsGetMountpointAt limit fuel m ll pathPtr =
      some ((vfsGetMountpoint mounts path).elim NULL Mountpoint.addr) := by
  rw [BayosKernel.vfsGetMountpointAt, if_neg hpath.ne_null, h.llSize]
  exact getMountpointLoop_eq hpath (fun _ _ => h.llGet) h.addrs h.paths hfuel mounts 0 none 0 rfl
    (by simp)

end MountList

/-- `vfs_get_mountpoint` reads no string behind its terminator and answers the first of the
longest mountpoints whose path is a prefix of the given one, or NULL when there is none. -/
theorem vfsGetMountpointAt_longest {ll pathPtr : Nat} {nodes : List Nat} {mounts : List Mountpoint}
    {path : Path} (hlist : MountList m limit ll nodes mounts)
    (hmounts : ∀ mp ∈ mounts, mp.path.IsMountPath) (hpath : StringAt m limit pathPtr path)
    (hfuel : ∀ mp ∈ mounts, mp.path.length < fuel) :
    ∃ best, vfsGetMountpointAt limit fuel m ll pathPtr = some best ∧
      (best = NULL ↔ ∀ mp ∈ mounts, ¬mp.path.ComponentPrefix path) ∧
      (best ≠ NULL → ∃ pre mp post, mounts = pre ++ mp :: post ∧ best = mp.addr ∧
        mp.path.ComponentPrefix path ∧
        (∀ b ∈ pre, b.path.ComponentPrefix path → b.path.length < mp.path.length) ∧
        ∀ b ∈ post, b.path.ComponentPrefix path → b.path.length ≤ mp.path.length) := by
  refine ⟨_, hlist.vfsGetMountpointAt hpath hfuel, ?_⟩
  have hcovers : ∀ mp ∈ mounts, (mp.path.Covers path ↔ mp.path.ComponentPrefix path) :=
    fun mp hmp => (hmounts mp hmp).covers_iff
  rw [vfsGetMountpoint_eq]
  cases hfound : firstMax (fun mp : Mountpoint => mp.path.Covers path)
      (fun mp => mp.path.length) mounts with
  | none =>
      refine ⟨⟨fun _ mp hmp hprefix => ?_, fun _ => rfl⟩, fun hne => absurd rfl hne⟩
      exact firstMax_eq_none.mp hfound mp hmp ((hcovers mp hmp).mpr hprefix)
  | some mp =>
      obtain ⟨pre, post, rfl, hmatch, hpre, hpost⟩ := firstMax_eq_some.mp hfound
      have hmem : mp ∈ pre ++ mp :: post := by simp
      have hprefix := (hcovers mp hmem).mp hmatch
      refine ⟨⟨fun hnull => absurd hnull (hlist.addrs mp hmem), fun hnone =>
        absurd hprefix (hnone mp hmem)⟩, fun _ => ⟨pre, mp, post, rfl, rfl, hprefix,
          fun b hb hbp => ?_, fun b hb hbp => ?_⟩⟩
      · exact hpre b hb ((hcovers b (by simp [hb])).mpr hbp)
      · exact hpost b hb ((hcovers b (by simp [hb])).mpr hbp)

end Lookup

/-- `/` and `/a`, in this order, with the list at 0x100 and the path `/a/b` at 0x520. -/
def twoMounts : List Mountpoint := [⟨0x400, 0, rootPath, 1⟩, ⟨0x480, 0, dirA, 1⟩]

def mountMemory : ByteMemory := fun x =>
  ([(0x101, 0x02), (0x108, 0x40), (0x109, 0x02), (0x110, 0x02), (0x201, 0x04), (0x208, 0x40),
    (0x209, 0x02), (0x240, 0x80), (0x241, 0x04), (0x251, 0x02), (0x409, 0x05), (0x410, 0x01),
    (0x488, 0x10), (0x489, 0x05), (0x490, 0x01), (0x500, 0x2f), (0x510, 0x2f), (0x511, 0x61),
    (0x520, 0x2f), (0x521, 0x61), (0x522, 0x2f), (0x523, 0x62)].lookup x).getD 0

def mountLimit (p : Nat) : Nat := if p = 0x500 then 1 else if p = 0x510 then 2 else 4

theorem twoMounts_list : MountList mountMemory mountLimit 0x100 [0x200, 0x240] twoMounts := by
  refine ⟨by decide, by decide +kernel, ?_, by decide +kernel, by decide, fun mp hmp => ?_⟩
  · exact ⟨by decide +kernel, by decide, by decide +kernel, by decide,
      (Chain.nil_iff _).mpr (by decide +kernel)⟩
  · rcases List.mem_cons.mp hmp with rfl | hmp
    · exact ⟨by decide +kernel, ⟨by decide, by decide +kernel⟩, by decide +kernel⟩
    · rw [List.mem_singleton.mp hmp]
      exact ⟨by decide +kernel, ⟨by decide, by decide +kernel⟩, by decide +kernel⟩

theorem vfsGetMountpointAt_longest_twoMounts : ∃ best pre mp post,
    vfsGetMountpointAt mountLimit 3 mountMemory 0x100 0x520 = some best ∧
      twoMounts = pre ++ mp :: post ∧ best = mp.addr ∧ mp.path.ComponentPrefix fileAB := by
  have hmounts : ∀ mp ∈ twoMounts, mp.path.IsMountPath := by
    intro mp hmp
    rcases List.mem_cons.mp hmp with rfl | hmp
    · exact ⟨rfl, Or.inl rfl⟩
    · rw [List.mem_singleton.mp hmp]
      exact ⟨rfl, Or.inr (by decide)⟩
  have hpath : StringAt mountMemory mountLimit 0x520 fileAB :=
    ⟨by decide, ⟨by decide, by decide +kernel⟩, by decide⟩
  obtain ⟨best, hcall, hnull, hbest⟩ := @vfsGetMountpointAt_longest mountMemory mountLimit 3
    0x100 0x520 _ _ _ twoMounts_list hmounts hpath (by decide)
  have hroot : rootPath.ComponentPrefix fileAB := Or.inr (Or.inr ⟨rfl, rfl⟩)
  obtain ⟨pre, mp, post, hsplit, haddr, hprefix, -⟩ := hbest fun hzero =>
    hnull.mp hzero _ List.mem_cons_self hroot
  exact ⟨best, pre, mp, post, hcall, hsplit, haddr, hprefix⟩

end BayosKernel
