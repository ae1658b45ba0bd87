import BayosKernel.StackOwnership

/-!
The runs of the preemptive machine. Each process has address spaces of its own, so
that a step of one process leaves the others as they are.
-/

namespace BayosKernel

open Foundation

/-- What holds between two steps. -/
structure StackInv (sites : List Site) (roots : List Nat) (own : Nat → Option Role)
    (s : PreemptState) : Prop where
  pages : PageInv s.pages sites
  tables : TableInv sites s.pages roots own
  roots : ∀ t ∈ s.threads, ∀ cr3 ∈ t.spaces, cr3 ∈ roots
  nodup : ∀ t ∈ s.threads, t.spaces.Nodup
  apart : ∀ (i j : Nat) (t u : UserThread), s.threads[i]? = some t → s.threads[j]? = some u →
    i ≠ j → List.Disjoint t.spaces u.spaces
  alive : ∀ t ∈ s.threads, t.dead = false → t.Alive (mappedPages own)

namespace PreemptState

/-- The conditions on the steps. A `fork_syscall` finds a page for the PML4 of a process whose
ELF file reaches behind its stack, a file and its segments lie in their places, and programs
store to the user half. -/
def Allows (s : PreemptState) : PreemptAction → Prop
  | .fork i => (∀ m, allocatePage s.pages.mem s.pages.areas ≠ some (m, NULL)) ∧
      ∀ t ∈ s.user i, 0x400000 ≤ t.proc.elfEnd.toNat
  | .execve _ filesz elf => elf.Inside ∧ filesz ≤ 0x400000000000
  | .store _ va _ => va < 0x800000000000
  | .anonAllocate _ _ | .exit _ | .run _ | .reap _ => True

theorem user_eq_some {s : PreemptState} {i : Nat} {t : UserThread} :
    s.user i = some t ↔ s.threads[i]? = some t ∧ t.dead = false ∧ t.calls = [] := by
  rw [user, Option.filter_eq_some_iff]
  simp

theorem step_run {s : PreemptState} {i : Nat} {t : UserThread} (hi : s.threads[i]? = some t)
    (hdead : t.dead = false) : s.step (.run i) = s.run i t := by
  have hrunning : (s.threads[i]?.filter fun t => !t.dead) = some t :=
    Option.filter_eq_some_iff.mpr ⟨hi, by simp [hdead]⟩
  rw [step, hrunning, Option.bind_some]

theorem run_call {s : PreemptState} {i : Nat} {t : UserThread} {c : KernelCall}
    {rest : List KernelCall} (ht : t.calls = c :: rest) (hmark : c ≠ .markDead)
    (hchild : c.child = none) :
    s.run i t = (c.run s.pages t.proc).map fun r =>
      ⟨r.1, s.threads.set i ⟨r.2.1, t.dead, r.2.2 ++ rest⟩⟩ := by
  cases c with
  | insertProcess newCr3 => cases hchild
  | markDead => exact absurd rfl hmark
  | allocateRegion _ _ _ _ | freeRegion _ _ _ | copyPages _ _ _ _ | anonAllocate _ | resetAnon
  | mapSegment _ _ _ | copyIn _ _ _ _ | setElfEnd _ => simp only [run, ht]

end PreemptState

/-- The process enters a system call that gives no pages back before its end. -/
theorem UserThread.Alive.enter {P : Nat → Set Nat} {t : UserThread} {calls : List KernelCall}
    (h : t.Alive P) (ht : t.calls = [])
    (hchild : ∀ cr3 ∈ children calls,
      stackPages ∪ regionPages 0x800000 t.proc.anonAllocateEnd ⊆ P cr3 ∪ pendingPages calls cr3)
    (hok : ∀ c ∈ calls, c.Ok { t with calls := calls }) :
    UserThread.Alive P { t with calls := calls } := by
  have hstack : stackPages ⊆ P t.proc.cr3 := h.stack (by simp [ht])
  have hanon := h.anonPages (by simp [ht]) (by simp [ht])
  exact ⟨fun _ => hstack, Or.inr (Or.inr hanon), h.aligned, h.above, h.below, hchild, hok⟩

section Calls

variable {t : UserThread}

/-- The statements of `exit_syscall` are allowed to free the stack. -/
theorem exitCalls_ok (ht : t.calls = exitCalls t.proc)
    (hbelow : t.proc.anonAllocateEnd ≤ 0x800000000000) :
    ∀ c ∈ exitCalls t.proc, c.Ok t := by
  have hdead : KernelCall.markDead ∈ t.calls := by
    rw [ht]
    simp [exitCalls]
  have helf : t.proc.elfEnd.toNat ≤ 0x800000000000 :=
    Nat.le_trans (Nat.le_of_lt t.proc.elfEnd.toNat_lt) (by decide)
  intro c hc
  simp only [exitCalls, List.mem_cons, List.not_mem_nil, or_false] at hc
  rcases hc with rfl | rfl | rfl | rfl
  · exact ⟨rfl, by decide, by decide, Or.inl hdead⟩
  · exact ⟨rfl, by decide, helf, Or.inl hdead⟩
  · exact ⟨rfl, by decide, hbelow, Or.inl hdead⟩
  · trivial

theorem segmentCalls_ok {elf : ElfImage} {ph : ElfProgram}
    (hin : 0x400000 ≤ ph.vaddr ∧ ph.vaddr + ph.memsz ≤ 0x800000 ∧
      ph.vaddr + ph.filesz ≤ 0x800000) :
    ∀ c ∈ segmentCalls elf ph, c.Ok t ∧ c.child = none := by
  have hcount := segment_count (show ph.memsz ≤ 0x80000000 by omega)
  intro c hc
  simp only [segmentCalls, hcount, Int.toNat_natCast, List.mem_append, List.mem_cons,
    List.not_mem_nil, or_false] at hc
  rcases hc with (rfl | rfl) | hc
  · refine ⟨fun j hj => ?_, rfl⟩
    rw [segmentPage_eq (by omega) (by omega)]
    omega
  · exact ⟨show ph.vaddr + ph.filesz ≤ 0x800000000000 by omega, rfl⟩
  · by_cases hmore : ph.memsz > ph.filesz
    · rw [if_pos hmore, List.mem_singleton, add64_eq (by omega)] at hc
      subst hc
      exact ⟨show ph.vaddr + ph.filesz + (ph.memsz - ph.filesz) ≤ 0x800000000000 by omega, rfl⟩
    · rw [if_neg hmore] at hc
      cases hc

theorem loadCalls_ok {elf : ElfImage} (hin : elf.Inside) {n : Nat} (hn : n ≤ elf.phnum) :
    ∀ c ∈ loadCalls elf n, c.Ok t ∧ c.child = none := by
  induction n with
  | zero => simp [loadCalls]
  | succ n ih =>
      intro c hc
      rw [loadCalls, List.mem_append] at hc
      rcases hc with hc | hc
      · exact ih (Nat.le_of_succ_le hn) c hc
      · by_cases hload : (elf.program n).type = 1
        · rw [if_pos hload] at hc
          exact segmentCalls_ok (hin n hn hload) c hc
        · rw [if_neg hload] at hc
          cases hc

/-- The statements of `execve_syscall` leave the stack alone. -/
theorem execveCalls_ok {filesz : Nat} {elf : ElfImage}
    (ht : t.calls = execveCalls t.proc filesz elf) (hin : elf.Inside)
    (hsize : filesz ≤ 0x400000000000) (hbelow : t.proc.anonAllocateEnd ≤ 0x800000000000) :
    ∀ c ∈ execveCalls t.proc filesz elf, c.Ok t ∧ c.child = none := by
  have hreset : KernelCall.resetAnon ∈ t.calls := by
    rw [ht]
    simp [execveCalls]
  have helf : t.proc.elfEnd.toNat ≤ 0x800000000000 :=
    Nat.le_trans (Nat.le_of_lt t.proc.elfEnd.toNat_lt) (by decide)
  have hscratch : add64 0x800000 filesz = 0x800000 + filesz := add64_eq (by omega)
  have hend : 0x800000 + filesz ≤ 0x800000000000 := by omega
  have hhigh : 0x400000 ≤ pageRoundDown 0x400000 ∧ 0x400000 ≤ pageRoundDown 0x800000 := by decide
  intro c hc
  simp only [execveCalls, hscratch, List.mem_append, List.mem_cons, List.not_mem_nil,
    or_false] at hc
  rcases hc with ((rfl | rfl | rfl | rfl | rfl) | hc) | rfl | rfl
  · exact ⟨⟨rfl, by decide, helf, Or.inr ⟨hhigh.1, Or.inl hreset⟩⟩, rfl⟩
  · exact ⟨⟨rfl, by decide, hbelow, Or.inr ⟨hhigh.2, Or.inl hreset⟩⟩, rfl⟩
  · exact ⟨trivial, rfl⟩
  · exact ⟨⟨List.mem_cons_self, by decide, hend, by decide⟩, rfl⟩
  · exact ⟨hend, rfl⟩
  · exact loadCalls_ok hin (Nat.le_refl _) c hc
  · exact ⟨trivial, rfl⟩
  · exact ⟨⟨rfl, by decide, hend, Or.inr ⟨hhigh.2, Or.inl hreset⟩⟩, rfl⟩

/-- The statements of `fork_syscall` are about the parent and the child. -/
theorem forkCalls_ok {newCr3 : Nat} (ht : t.calls = forkCalls t.proc newCr3)
    (hanon : t.proc.anonAllocateEnd ≤ 0x400000000000) :
    ∀ c ∈ forkCalls t.proc newCr3, c.Ok t := by
  have hchildren : t.spaces = [t.proc.cr3, newCr3] := by
    rw [UserThread.spaces, ht]
    rfl
  have hparent : t.proc.cr3 ∈ t.spaces := List.mem_cons_self
  have hchild : newCr3 ∈ t.spaces := by
    rw [hchildren]
    simp
  have helf := t.proc.elfEnd.toNat_lt
  have hend : add64 0x200000 t.proc.elfEnd.toNat = 0x200000 + t.proc.elfEnd.toNat :=
    add64_eq (by omega)
  have hend' : add64 0x800000 t.proc.anonAllocateEnd = 0x800000 + t.proc.anonAllocateEnd :=
    add64_eq (by omega)
  intro c hc
  simp only [forkCalls, hend, hend', List.mem_cons, List.not_mem_nil, or_false] at hc
  rcases hc with rfl | rfl | rfl | rfl | rfl
  · exact ⟨hchild, by decide, by omega, by decide⟩
  · exact ⟨hchild, by decide, by omega, by decide⟩
  · exact ⟨hchild, hparent, by omega⟩
  · exact ⟨hchild, hparent, by omega⟩
  · show t.calls.getLast? = some (.insertProcess newCr3)
    rw [ht]
    rfl

/-- The two loops of `fork_syscall` have the stack and the anonymous memory to come. -/
theorem forkCalls_pending {proc : UserProcess} {newCr3 : Nat}
    (helf : 0x400000 ≤ proc.elfEnd.toNat) :
    stackPages ∪ regionPages 0x800000 proc.anonAllocateEnd ⊆
      pendingPages (forkCalls proc newCr3) newCr3 := by
  have hround : pageRoundDown 0x200000 = 0x200000 ∧ pageRoundDown 0x800000 = 0x800000 := by decide
  rintro page (hpage | hpage)
  · exact ⟨_, _, 7, List.mem_cons_self, by rw [hround.1]; exact regionPages_mono helf hpage⟩
  · exact ⟨_, _, 7, List.mem_cons_of_mem _ List.mem_cons_self, by rw [hround.2]; exact hpage⟩

end Calls

namespace StackInv

variable {sites : List Site} {roots : List Nat} {own own' : Nat → Option Role}
  {s : PreemptState} {st' : PageState} {i : Nat} {t t' : UserThread}

/-- A step of one process. -/
theorem set {cr3 : Nat} (h : StackInv sites roots own s) (hi : s.threads[i]? = some t)
    (hspace : cr3 ∈ t.spaces) (hremaps : Remaps sites roots st' own own' cr3)
    (hnodup : t'.spaces.Nodup)
    (hspaces : ∀ x ∈ t'.spaces, x ∈ t.spaces ∨ x ∈ roots ∧ ∀ u ∈ s.threads, x ∉ u.spaces)
    (halive : t'.dead = false → t'.Alive (mappedPages own')) :
    StackInv sites roots own' ⟨st', s.threads.set i t'⟩ := by
  have hmem := List.mem_of_getElem? hi
  have hcases : ∀ j u, (s.threads.set i t')[j]? = some u →
      j = i ∧ u = t' ∨ j ≠ i ∧ s.threads[j]? = some u := by
    intro j u hj
    rw [List.getElem?_set] at hj
    by_cases hij : i = j
    · rw [if_pos hij] at hj
      split at hj
      · exact Or.inl ⟨hij.symm, (Option.some.inj hj).symm⟩
      · cases hj
    · rw [if_neg hij] at hj
      exact Or.inr ⟨Ne.symm hij, hj⟩
  have hother : ∀ j u, j ≠ i → s.threads[j]? = some u → List.Disjoint t'.spaces u.spaces := by
    intro j u hne hj x hx hx'
    rcases hspaces x hx with hold | ⟨-, hfresh⟩
    · exact h.apart i j t u hi hj (Ne.symm hne) hold hx'
    · exact hfresh u (List.mem_of_getElem? hj) hx'
  refine ⟨hremaps.pages, hremaps.tables, fun u hu => ?_, fun u hu => ?_,
    fun j k u v hj hk hne => ?_, fun u hu => ?_⟩
  · obtain ⟨j, hj⟩ := List.mem_iff_getElem?.mp hu
    rcases hcases j u hj with ⟨-, rfl⟩ | ⟨-, hj⟩
    · exact fun x hx => (hspaces x hx).elim (h.roots t hmem x) And.left
    · exact h.roots u (List.mem_of_getElem? hj)
  · obtain ⟨j, hj⟩ := List.mem_iff_getElem?.mp hu
    rcases hcases j u hj with ⟨-, rfl⟩ | ⟨-, hj⟩
    · exact hnodup
    · exact h.nodup u (List.mem_of_getElem? hj)
  · rcases hcases j u hj with ⟨hji, rfl⟩ | ⟨hji, hold⟩
    · rcases hcases k v hk with ⟨hki, -⟩ | ⟨hki, hold'⟩
      · exact absurd (hji.trans hki.symm) hne
      · exact hother k v hki hold'
    · rcases hcases k v hk with ⟨-, rfl⟩ | ⟨-, hold'⟩
      · exact (hother j u hji hold).symm
      · exact h.apart j k u v hold hold' hne
  · obtain ⟨j, hj⟩ := List.mem_iff_getElem?.mp hu
    rcases hcases j u hj with ⟨-, rfl⟩ | ⟨hji, hj⟩
    · exact halive
    · refine fun hdead => (h.alive u (List.mem_of_getElem? hj) hdead).congr fun x hx => ?_
      refine hremaps.mappedPages_eq ?_
      rintro rfl
      exact h.apart i j t u hi hj (Ne.symm hji) hspace hx

/-- A process is put into the list. -/
theorem insert {u : UserThread} (h : StackInv sites roots own s)
    (hroots : ∀ x ∈ u.spaces, x ∈ roots) (hnodup : u.spaces.Nodup)
    (hapart : ∀ t ∈ s.threads, List.Disjoint t.spaces u.spaces)
    (halive : u.dead = false → u.Alive (mappedPages own)) :
    StackInv sites roots own { s with threads := s.threads ++ [u] } := by
  have hcases : ∀ v ∈ s.threads ++ [u], v ∈ s.threads ∨ v = u := by
    intro v hv
    simpa using hv
  refine ⟨h.pages, h.tables, fun v hv => ?_, fun v hv => ?_, fun j k v w hj hk hne => ?_,
    fun v hv => ?_⟩
  · rcases hcases v hv with hv | rfl
    · exact h.roots v hv
    · exact hroots
  · rcases hcases v hv with hv | rfl
    · exact h.nodup v hv
    · exact hnodup
  · simp only [List.getElem?_append, List.getElem?_singleton] at hj hk
    split at hj
    · split at hk
      · exact h.apart j k v w hj hk hne
      · simp only [Option.ite_none_right_eq_some, Option.some.injEq] at hk
        rw [← hk.2]
        exact hapart v (List.mem_of_getElem? hj)
    · simp only [Option.ite_none_right_eq_some, Option.some.injEq] at hj
      split at hk
      · rw [← hj.2]
        exact (hapart w (List.mem_of_getElem? hk)).symm
      · simp only [Option.ite_none_right_eq_some, Option.some.injEq] at hk
        omega
  · rcases hcases v hv with hv | rfl
    · exact h.alive v hv
    · exact halive

/-- A process is taken out of the list. -/
theorem erase (h : StackInv sites roots own s) (i : Nat) :
    StackInv sites roots own { s with threads := s.threads.eraseIdx i } := by
  have hmem : ∀ t ∈ s.threads.eraseIdx i, t ∈ s.threads := fun t ht =>
    (List.eraseIdx_sublist s.threads i).subset ht
  refine ⟨h.pages, h.tables, fun t ht => h.roots t (hmem t ht), fun t ht => h.nodup t (hmem t ht),
    fun j k t u hj hk hne => ?_, fun t ht => h.alive t (hmem t ht)⟩
  simp only [List.getElem?_eraseIdx] at hj hk
  by_cases hji : j < i
  · rw [if_pos hji] at hj
    by_cases hki : k < i
    · rw [if_pos hki] at hk
      exact h.apart j k t u hj hk hne
    · rw [if_neg hki] at hk
      exact h.apart j (k + 1) t u hj hk (by omega)
  · rw [if_neg hji] at hj
    by_cases hki : k < i
    · rw [if_pos hki] at hk
      exact h.apart (j + 1) k t u hj hk (by omega)
    · rw [if_neg hki] at hk
      exact h.apart (j + 1) (k + 1) t u hj hk (by omega)

/-- A PML4 that belongs to no process yet. -/
theorem newSpace {cr3 newCr3 : Nat} (h : StackInv sites roots own s) (hroot : cr3 ∈ roots)
    (hnew : s.pages.newSpace cr3 = some (st', newCr3)) (hne : newCr3 ≠ NULL) :
    StackInv sites (newCr3 :: roots) (withRoot own newCr3) { s with pages := st' } ∧
      ∀ u ∈ s.threads, newCr3 ∉ u.spaces := by
  obtain ⟨hpages', htables', hspace⟩ := h.tables.newSpace h.pages hroot hnew hne
  have hsame : ∀ x, mappedPages (withRoot own newCr3) x = mappedPages own x := by
    intro x
    ext va
    exact and_congr_right fun _ => exists_congr fun c => maps_withRoot hspace.unowned
  refine ⟨⟨hpages', htables', fun t ht x hx => List.mem_cons_of_mem _ (h.roots t ht x hx), h.nodup,
    h.apart, fun t ht hdead => (h.alive t ht hdead).congr fun x _ => hsame x⟩, fun u hu hmem => ?_⟩
  obtain ⟨r, hr, -⟩ := h.tables.roots _ (h.roots u hu _ hmem)
  rw [hspace.unowned] at hr
  cases hr

/-- The process enters a system call on the address space that it has. -/
theorem enter {calls : List KernelCall} (h : StackInv sites roots own s)
    (hi : s.threads[i]? = some t) (hdead : t.dead = false) (ht : t.calls = [])
    (hchild : children calls = []) (hok : ∀ c ∈ calls, c.Ok { t with calls := calls }) :
    StackInv sites roots own (s.enter i t calls) := by
  have hmem := List.mem_of_getElem? hi
  have hspaces : UserThread.spaces { t with calls := calls } = t.spaces := by
    simp only [UserThread.spaces, hchild, ht]
    rfl
  refine h.set hi List.mem_cons_self (Remaps.refl h.pages h.tables t.proc.cr3) ?_ (fun x hx => ?_)
    fun _ => (h.alive t hmem hdead).enter ht (by simp [hchild]) hok
  · rw [hspaces]
    exact h.nodup t hmem
  · rw [hspaces] at hx
    exact Or.inl hx

/-- The child is put into the list; it has the pages that its PML4 was filled with. -/
theorem insertChild {newCr3 : Nat} {rest : List KernelCall} (h : StackInv sites roots own s)
    (hi : s.threads[i]? = some t) (hdead : t.dead = false)
    (ht : t.calls = .insertProcess newCr3 :: rest) :
    StackInv sites roots own { s with threads := s.threads.set i { t with calls := rest } ++
      [⟨{ t.proc with cr3 := newCr3 }, t.dead, []⟩] } := by
  have hmem := List.mem_of_getElem? hi
  have halive := h.alive t hmem hdead
  have hnodup := h.nodup t hmem
  have hok : KernelCall.Ok t (.insertProcess newCr3) :=
    halive.calls _ (ht ▸ List.mem_cons_self)
  have hlast : t.calls.getLast? = some (.insertProcess newCr3) := hok
  have hspaces : t.spaces = t.proc.cr3 :: newCr3 :: children rest := by
    rw [UserThread.spaces, ht]
    rfl
  rw [hspaces] at hnodup
  -- a second `insert_process` would have the same PML4
  obtain rfl : rest = [] := by
    by_contra hne
    obtain ⟨d, rest', rfl⟩ := List.exists_cons_of_ne_nil hne
    rw [ht, List.getLast?_cons_cons] at hlast
    have hsecond : newCr3 ∈ children (d :: rest') :=
      List.mem_filterMap.mpr ⟨_, List.mem_of_getLast? hlast, rfl⟩
    exact (List.nodup_cons.mp (List.nodup_cons.mp hnodup).2).1 hsecond
  have hne : t.proc.cr3 ≠ newCr3 := by
    rintro heq
    rw [← heq] at hnodup
    simp at hnodup
  have hpending : pendingPages t.calls newCr3 = ∅ := by
    rw [ht]
    ext page
    simp [pendingPages]
  have hfilled : stackPages ∪ regionPages 0x800000 t.proc.anonAllocateEnd ⊆
      mappedPages own newCr3 := by
    have hchild := halive.child newCr3 (by rw [ht]; exact List.mem_cons_self)
    rwa [hpending, Set.union_empty] at hchild
  have hparent : StackInv sites roots own
      { s with threads := s.threads.set i { t with calls := [] } } := by
    refine h.set hi List.mem_cons_self (Remaps.refl h.pages h.tables t.proc.cr3)
      (List.nodup_singleton _) (fun x hx => ?_) fun _ => ?_
    · rw [hspaces]
      exact Or.inl (List.mem_cons.mpr (Or.inl (List.mem_singleton.mp hx)))
    · have hnot : KernelCall.markDead ∉ t.calls ∧ KernelCall.resetAnon ∉ t.calls := by
        rw [ht]
        simp
      refine ⟨fun _ => halive.stack hnot.1, Or.inr (Or.inr ?_), halive.aligned, halive.above,
        halive.below, by simp [children], by simp⟩
      exact halive.anonPages hnot.1 hnot.2
  have hroot : newCr3 ∈ t.spaces := by
    rw [hspaces]
    simp
  refine hparent.insert (fun x hx => ?_) (List.nodup_singleton _) (fun u hu x hx hx' => ?_)
    fun _ => ⟨fun _ => Set.subset_union_left.trans hfilled,
      Or.inr (Or.inr (Set.subset_union_right.trans hfilled)), halive.aligned, halive.above,
      halive.below, by simp [children], by simp⟩
  · rw [List.mem_singleton.mp hx]
    exact h.roots t hmem _ hroot
  · obtain rfl := List.mem_singleton.mp hx'
    obtain ⟨j, hj⟩ := List.mem_iff_getElem?.mp hu
    rw [List.getElem?_set] at hj
    by_cases hij : i = j
    · rw [if_pos hij] at hj
      split at hj
      · cases hj
        exact hne (List.mem_singleton.mp hx).symm
      · cases hj
    · rw [if_neg hij] at hj
      exact h.apart i j t u hi hj hij hroot hx

/-- A step of a system call. -/
theorem run {s' : PreemptState} (hphys : Physical sites) (hsites : sites.length ≤ 0x100)
    (h : StackInv sites roots own s) (hi : s.threads[i]? = some t) (hdead : t.dead = false)
    (hstep : s.run i t = some s') : ∃ own', StackInv sites roots own' s' := by
  have hmem := List.mem_of_getElem? hi
  cases hcalls : t.calls with
  | nil => simp [PreemptState.run, hcalls] at hstep
  | cons c rest =>
      by_cases hmark : c = .markDead
      · subst hmark
        simp only [PreemptState.run, hcalls, Option.some.injEq] at hstep
        subst hstep
        have hspaces : UserThread.spaces ⟨t.proc, true, rest⟩ = t.spaces := by
          rw [UserThread.spaces, UserThread.spaces, hcalls]
          rfl
        exact ⟨own, h.set hi List.mem_cons_self (Remaps.refl h.pages h.tables t.proc.cr3)
          (hspaces ▸ h.nodup t hmem) (fun x hx => Or.inl (hspaces ▸ hx)) (by simp)⟩
      · cases hchild : c.child with
        | some newCr3 =>
            obtain rfl : c = .insertProcess newCr3 := by
              cases c <;> simp [KernelCall.child] at hchild
              rw [hchild]
            simp only [PreemptState.run, hcalls, Option.some.injEq] at hstep
            subst hstep
            exact ⟨own, h.insertChild hi hdead hcalls⟩
        | none =>
            rw [PreemptState.run_call hcalls hmark hchild] at hstep
            obtain ⟨⟨st', proc', left⟩, hrun, heq⟩ := Option.map_eq_some_iff.mp hstep
            cases heq
            obtain ⟨hspaces, own', cr3, hspace, hremaps, halive⟩ := KernelCall.run_keeps h.tables
              h.pages hphys hsites (h.roots t hmem) (h.nodup t hmem) (h.alive t hmem hdead) hcalls
              hrun
            exact ⟨own', h.set hi hspace hremaps (hspaces ▸ h.nodup t hmem)
              (fun x hx => Or.inl (hspaces ▸ hx)) fun _ => halive⟩

theorem step {a : PreemptAction} {s' : PreemptState} (hphys : Physical sites)
    (hsites : sites.length ≤ 0x100) (h : StackInv sites roots own s) (hallows : s.Allows a)
    (hstep : s.step a = some s') : ∃ roots' own', StackInv sites roots' own' s' := by
  cases a with
  | fork i =>
      obtain ⟨t, hu, hstep⟩ := Option.bind_eq_some_iff.mp hstep
      obtain ⟨⟨st', newCr3⟩, hnew, heq⟩ := Option.map_eq_some_iff.mp hstep
      obtain ⟨hi, hdead, ht⟩ := PreemptState.user_eq_some.mp hu
      have hmem := List.mem_of_getElem? hi
      have hroot := h.roots t hmem _ List.mem_cons_self
      obtain ⟨h', hfresh⟩ := h.newSpace hroot hnew (newSpace_ne_null hallows.1 hnew)
      have halive := h'.alive t hmem hdead
      have hanon := (h.alive t hmem hdead).anonPages (by simp [ht]) (by simp [ht])
      have hbound := h.tables.region_le h.pages hsites (by decide) halive.below
        fun _ hin => (hanon hin).2
      have hspaces : UserThread.spaces { t with calls := forkCalls t.proc newCr3 } =
          [t.proc.cr3, newCr3] := rfl
      have hne : t.proc.cr3 ≠ newCr3 := fun heq => hfresh t hmem (heq ▸ List.mem_cons_self)
      subst heq
      refine ⟨_, _, h'.set hi List.mem_cons_self (Remaps.refl h'.pages h'.tables t.proc.cr3)
        ?_ (fun x hx => ?_) fun _ => halive.enter ht (fun cr3 hcr3 => ?_) ?_⟩
      · rw [hspaces]
        simpa using hne
      · rw [hspaces, List.mem_pair] at hx
        rcases hx with rfl | rfl
        · exact Or.inl List.mem_cons_self
        · exact Or.inr ⟨List.mem_cons_self, hfresh⟩
      · obtain rfl : cr3 = newCr3 := List.mem_singleton.mp hcr3
        exact (forkCalls_pending (hallows.2 t hu)).trans Set.subset_union_right
      · refine forkCalls_ok (t := { t with calls := forkCalls t.proc newCr3 }) rfl ?_
        show t.proc.anonAllocateEnd ≤ 0x400000000000
        omega
  | execve i filesz elf =>
      obtain ⟨t, hu, heq⟩ := Option.map_eq_some_iff.mp hstep
      obtain ⟨hi, hdead, ht⟩ := PreemptState.user_eq_some.mp hu
      have hbelow := (h.alive t (List.mem_of_getElem? hi) hdead).below
      have hok := execveCalls_ok (t := { t with calls := execveCalls t.proc filesz elf }) rfl
        hallows.1 hallows.2 hbelow
      subst heq
      refine ⟨roots, own, h.enter hi hdead ht ?_ fun c hc => (hok c hc).1⟩
      exact List.filterMap_eq_nil_iff.mpr fun c hc => (hok c hc).2
  | anonAllocate i size =>
      obtain ⟨t, hu, heq⟩ := Option.map_eq_some_iff.mp hstep
      obtain ⟨hi, hdead, ht⟩ := PreemptState.user_eq_some.mp hu
      subst heq
      refine ⟨roots, own, h.enter hi hdead ht rfl fun c hc => ?_⟩
      rw [List.mem_singleton.mp hc]
      rfl
  | exit i =>
      obtain ⟨t, hu, heq⟩ := Option.map_eq_some_iff.mp hstep
      obtain ⟨hi, hdead, ht⟩ := PreemptState.user_eq_some.mp hu
      have hbelow := (h.alive t (List.mem_of_getElem? hi) hdead).below
      subst heq
      exact ⟨roots, own, h.enter hi hdead ht rfl
        (exitCalls_ok (t := { t with calls := exitCalls t.proc }) rfl hbelow)⟩
  | store i va v =>
      obtain ⟨t, hu, hstep⟩ := Option.bind_eq_some_iff.mp hstep
      obtain ⟨st', hwrite, heq⟩ := Option.map_eq_some_iff.mp hstep
      obtain ⟨hi, -⟩ := Option.filter_eq_some_iff.mp hu
      have hroot := h.roots t (List.mem_of_getElem? hi) _ List.mem_cons_self
      obtain ⟨-, -, -, hpages', h'⟩ := h.tables.write h.pages hphys hroot hallows hwrite
      subst heq
      exact ⟨roots, own, hpages', h', h.roots, h.nodup, h.apart, h.alive⟩
  | run i =>
      obtain ⟨t, hu, hstep⟩ := Option.bind_eq_some_iff.mp hstep
      obtain ⟨hi, hdead⟩ := Option.filter_eq_some_iff.mp hu
      obtain ⟨own', h'⟩ := h.run hphys hsites hi (by simpa using hdead) hstep
      exact ⟨roots, own', h'⟩
  | reap i =>
      obtain ⟨t, hu, heq⟩ := Option.map_eq_some_iff.mp hstep
      subst heq
      exact ⟨roots, own, h.erase i⟩

end StackInv

section Boot

variable {st st₁ : PageState} {sites : List Site} {fuel cr3 : Nat} {elf : ElfImage}
  {init : UserProcess}

/-- The first process starts with all pages of its stack. -/
theorem enterRing3Init_stackInv (hinit : SpaceInit sites [cr3] st) (hin : elf.Inside)
    (hstart : enterRing3Init fuel st ⟨cr3, 0, 0x800000⟩ elf = some (st₁, init)) :
    ∃ own, StackInv sites [cr3] own ⟨st₁, [⟨init, false, []⟩]⟩ := by
  obtain ⟨own, h⟩ := hinit.inv.tables
  have hroot : cr3 ∈ [cr3] := List.mem_singleton.mpr rfl
  obtain ⟨st₂, hstack, hstart⟩ := Option.bind_eq_some_iff.mp hstart
  obtain ⟨⟨st₃, elfEnd⟩, hload, heq⟩ := Option.map_eq_some_iff.mp hstart
  obtain ⟨rfl, rfl⟩ := Prod.mk.inj heq
  obtain ⟨own₁, hremaps₁, hmapped⟩ := h.allocateRegion_remaps hinit.pages hinit.physical hroot
    (by decide) (by decide) (by decide) (by decide) hstack
  obtain ⟨-, own₂, hremaps₂, hkeeps, -⟩ :=
    mapPrograms_remaps hremaps₁.tables hremaps₁.pages hinit.physical hroot hin hload
  have hpages : stackPages ⊆ mappedPages own₂ cr3 := by
    rw [hmapped] at hkeeps
    exact Set.subset_union_right.trans hkeeps
  have hempty : regionPages 0x800000 0x800000 ⊆ mappedPages own₂ cr3 := fun va hva =>
    absurd (Nat.lt_of_le_of_lt hva.1 hva.2.1) (Nat.lt_irrefl _)
  refine ⟨own₂, hremaps₂.pages, hremaps₂.tables, fun t ht x hx => ?_, fun t ht => ?_,
    fun i j t u hi hj hne => ?_, fun t ht hdead => ?_⟩
  · rw [List.mem_singleton.mp ht] at hx
    exact hx
  · rw [List.mem_singleton.mp ht]
    exact List.nodup_singleton _
  · have := (List.getElem?_eq_some_iff.mp hi).1
    have := (List.getElem?_eq_some_iff.mp hj).1
    simp only [List.length_cons, List.length_nil] at *
    omega
  · rw [List.mem_singleton.mp ht]
    exact ⟨fun _ => hpages, Or.inr (Or.inr hempty), show 0x800000 % 0x1000 = 0 by decide,
      Nat.le_refl 0x800000, show 0x800000 ≤ 0x800000000000 by decide, by simp [children], by simp⟩

/-- A process that is not DEAD and not in `exit_syscall` has its stack after every run. -/
theorem preemptMachine_stackHeld {run : List PreemptAction} {s : PreemptState}
    (hinit : SpaceInit sites [cr3] st) (hsites : sites.length ≤ 0x100) (hin : elf.Inside)
    (hstart : enterRing3Init fuel st ⟨cr3, 0, 0x800000⟩ elf = some (st₁, init))
    (hallows : preemptMachine.Meets PreemptState.Allows ⟨st₁, [⟨init, false, []⟩]⟩ run)
    (hrun : preemptMachine.exec ⟨st₁, [⟨init, false, []⟩]⟩ run = some s) :
    ∀ t ∈ s.threads, t.dead = false → .markDead ∉ t.calls → StackHeld s.pages t.proc.cr3 := by
  let I : PreemptState → Prop := fun s => ∃ roots own, StackInv sites roots own s
  have hstep : ∀ s a s', I s → s.Allows a → preemptMachine.step s a = some s' → I s' := by
    rintro s a s' ⟨roots, own, h⟩ ha hstep
    exact h.step hinit.physical hsites ha hstep
  obtain ⟨own₁, h₁⟩ := enterRing3Init_stackInv hinit hin hstart
  obtain ⟨roots, own, h⟩ : I s :=
    preemptMachine.exec_invariant hstep ⟨[cr3], own₁, h₁⟩ hallows hrun
  intro t ht hdead hmark va hva
  obtain ⟨⟨hlt, -⟩, p, hmaps⟩ := (h.alive t ht hdead).stack hmark hva
  have hroot := h.roots t ht _ List.mem_cons_self
  obtain ⟨pt, i, hrole⟩ := hmaps.owned
  exact ⟨p, (h.tables.pageAt_iff h.pages hinit.physical hroot hlt).mpr hmaps,
    h.pages.marked_of_mem (h.tables.allocated hrole (by simp))⟩

/-- A page for the first process, and the stack is where it was. -/
theorem preemptMachine_stackHeld_anon : ∃ sites st st₁ init s t, SpaceInit sites [0x1000] st ∧
    sites.length ≤ 0x100 ∧
    enterRing3Init 0x10000001 st ⟨0x1000, 0, 0x800000⟩ bootElf = some (st₁, init) ∧
    preemptMachine.exec ⟨st₁, [⟨init, false, []⟩]⟩ [.anonAllocate 0 0x1000, .run 0, .run 0] =
      some s ∧ s.threads = [t] ∧ t.proc.anonAllocateEnd = 0x801000 ∧
      StackHeld s.pages t.proc.cr3 := by
  obtain ⟨sites, st, st₁, hinit, hsites, hstart, hlength⟩ := bootProcess
  obtain ⟨own, h⟩ := enterRing3Init_stackInv hinit bootElf_inside hstart
  have hroot := h.roots _ List.mem_cons_self _ List.mem_cons_self
  have hfree : st₁.allocated.length + 4 ≤ managedPages sites := by omega
  obtain ⟨st₂, hmap, -⟩ := h.tables.mapMemoryPage_some h.pages hinit.physical hroot
    (show 0x800000 < 0x800000000000 by decide) (show PageFlags 7 by decide) hfree
  let proc : UserProcess := ⟨0x1000, 0x401800, 0x800000⟩
  let proc' : UserProcess := ⟨0x1000, 0x401800, 0x801000⟩
  have henter : PreemptState.step ⟨st₁, [⟨proc, false, []⟩]⟩ (.anonAllocate 0 0x1000) =
      some ⟨st₁, [⟨proc, false, [.anonAllocate 1]⟩]⟩ := rfl
  have hturn : KernelCall.run st₁ proc (.anonAllocate 1) =
      some (st₂, proc', [.anonAllocate 0]) := by
    have hcall : st₁.mapMemoryPage proc.cr3 proc.anonAllocateEnd 7 = some st₂ := hmap
    have hend : add64 proc.anonAllocateEnd 0x1000 = 0x801000 := by decide
    rw [KernelCall.run, hcall, hend]
    rfl
  have hpage : PreemptState.step ⟨st₁, [⟨proc, false, [.anonAllocate 1]⟩]⟩ (.run 0) =
      some ⟨st₂, [⟨proc', false, [.anonAllocate 0]⟩]⟩ := by
    rw [PreemptState.step_run rfl rfl, PreemptState.run_call rfl (by simp) rfl, hturn]
    rfl
  have hdone : PreemptState.step ⟨st₂, [⟨proc', false, [.anonAllocate 0]⟩]⟩ (.run 0) =
      some ⟨st₂, [⟨proc', false, []⟩]⟩ := rfl
  have hrun : preemptMachine.exec ⟨st₁, [⟨proc, false, []⟩]⟩
      [.anonAllocate 0 0x1000, .run 0, .run 0] = some ⟨st₂, [⟨proc', false, []⟩]⟩ :=
    Option.bind_eq_some_iff.mpr ⟨_, henter, Option.bind_eq_some_iff.mpr ⟨_, hpage,
      Option.bind_eq_some_iff.mpr ⟨_, hdone, rfl⟩⟩⟩
  refine ⟨sites, st, st₁, proc, _, _, hinit, hsites, hstart, hrun, rfl, rfl, ?_⟩
  exact preemptMachine_stackHeld hinit hsites bootElf_inside hstart
    (preemptMachine.meets_of_mem _ _ (by simp [PreemptState.Allows])) hrun _ List.mem_cons_self rfl
    (by simp)

/-- Turns of `free_region`, with ticks between them that go on with the same process. -/
theorem exec_freeTurns {s : PageState} {roots : List Nat} {own own₁ : Nat → Option Role}
    (proc : UserProcess) (rest : List KernelCall) {first va stop : Nat}
    (h : TableInv sites st roots own) (hpages : PageInv st sites) (hphys : Physical sites)
    (hroot : cr3 ∈ roots) (hva : first ≤ va ∧ va % 0x1000 = 0) (hpages₁ : PageInv s sites)
    (h₁ : TableInv sites s roots own₁) (hfrees : Frees sites st s own own₁ cr3 first va) {n : Nat}
    (hn : va + n * 0x1000 ≤ stop) (hstop : stop ≤ 0x800000000000) : ∃ s' own',
      preemptMachine.exec ⟨s, [⟨proc, false, .freeRegion cr3 va stop :: rest⟩]⟩
          (List.replicate n (.run 0)) =
        some ⟨s', [⟨proc, false, .freeRegion cr3 (va + n * 0x1000) stop :: rest⟩]⟩ ∧
      PageInv s' sites ∧ TableInv sites s' roots own' ∧
      Frees sites st s' own own' cr3 first (va + n * 0x1000) := by
  induction n generalizing va s own₁ with
  | zero => exact ⟨s, own₁, by simp [Machine.exec], hpages₁, h₁, by simpa using hfrees⟩
  | succ n ih =>
      have hnext : va + (n + 1) * 0x1000 = va + 0x1000 + n * 0x1000 := by omega
      obtain ⟨own₂, hpages₂, h₂, hfrees₂⟩ :=
        h.frees_step hpages hphys hroot ⟨hva.1, hva.2, by omega⟩ hpages₁ h₁ hfrees
      obtain ⟨s', own', hexec, hend⟩ := ih (by omega) hpages₂ h₂ hfrees₂ (by omega)
      rw [hnext]
      refine ⟨s', own', ?_, hend⟩
      have hturn : KernelCall.run s proc (.freeRegion cr3 va stop) =
          some (s.freeRegionPage cr3 va, proc, [.freeRegion cr3 (va + 0x1000) stop]) := by
        rw [KernelCall.run, if_pos (by omega), add64_eq (by omega)]
      have hstep : PreemptState.step ⟨s, [⟨proc, false, .freeRegion cr3 va stop :: rest⟩]⟩
          (.run 0) = some ⟨s.freeRegionPage cr3 va,
            [⟨proc, false, .freeRegion cr3 (va + 0x1000) stop :: rest⟩]⟩ := by
        rw [PreemptState.step_run rfl rfl, PreemptState.run_call rfl (by simp) rfl, hturn]
        rfl
      rw [List.replicate_succ, Machine.exec]
      exact Option.bind_eq_some_iff.mpr ⟨_, hstep, hexec⟩

/-- Ticks during the first loop of `exit_syscall` that find no other process. The process runs
on, and no page of its stack is left. -/
theorem exitSyscall_stackGone : ∃ sites st st₁ init s t, SpaceInit sites [0x1000] st ∧
    enterRing3Init 0x10000001 st ⟨0x1000, 0, 0x800000⟩ bootElf = some (st₁, init) ∧
    preemptMachine.exec ⟨st₁, [⟨init, false, []⟩]⟩
        (.exit 0 :: List.replicate 512 (.run 0)) = some s ∧
      s.threads = [t] ∧ t.dead = false ∧ ∀ va, InRegion 0x200000 0x400000 va →
        (∀ p, ¬PageAt s.pages.mem t.proc.cr3 va p) ∧
          ∀ p, PageAt st₁.mem t.proc.cr3 va p → st₁.Marked p ∧ ¬s.pages.Marked p := by
  obtain ⟨sites, st, st₁, hinit, -, hstart, -⟩ := bootProcess
  have hphys := hinit.physical
  obtain ⟨own, h⟩ := enterRing3Init_stackInv hinit bootElf_inside hstart
  have hroot := h.roots _ List.mem_cons_self _ List.mem_cons_self
  let proc : UserProcess := ⟨0x1000, 0x401800, 0x800000⟩
  let rest := (exitCalls proc).tail
  have hturns : 0x200000 + 512 * 0x1000 ≤ 0x400000 := by decide
  obtain ⟨s', own', hexec, hpages', h', hfrees⟩ := exec_freeTurns proc rest h.tables h.pages hphys
    hroot ⟨Nat.le_refl _, by decide⟩ h.pages h.tables (Frees.refl st₁ own 0x1000 0x200000) hturns
    (by decide)
  have hround : pageRoundDown 0x200000 = 0x200000 := by decide
  have hcalls : exitCalls proc = .freeRegion 0x1000 0x200000 0x400000 :: rest := by
    rw [exitCalls, hround]
    rfl
  have hexit : PreemptState.step ⟨st₁, [⟨proc, false, []⟩]⟩ (.exit 0) =
      some ⟨st₁, [⟨proc, false, exitCalls proc⟩]⟩ := rfl
  rw [hcalls] at hexit
  have hat : ∀ va, InRegion 0x200000 0x400000 va → ∀ p,
      PageAt st₁.mem 0x1000 va p ↔ Maps own 0x1000 va p := fun va hva p =>
    h.tables.pageAt_iff h.pages hphys hroot (Nat.lt_trans hva.2.1 (by decide))
  refine ⟨sites, st, st₁, proc, _, _, hinit, hstart,
    Option.bind_eq_some_iff.mpr ⟨_, hexit, hexec⟩, rfl, rfl, fun va hva => ⟨fun p hp => ?_,
      fun p hp => ?_⟩⟩
  · have hlt := Nat.lt_trans hva.2.1 (show 0x400000 < 0x800000000000 by decide)
    have hmaps := (h'.pageAt_iff hpages' hphys hroot hlt).mp hp
    obtain ⟨-, hmapped⟩ := hfrees.remaps hpages' h' (by decide)
    have hleft : va ∈ mappedPages own' 0x1000 := ⟨⟨hlt, hva.2.2⟩, p, hmaps⟩
    rw [hmapped] at hleft
    exact hleft.2 hva
  · have hmaps := (hat va hva p).mp hp
    obtain ⟨pt, i, hrole⟩ := hmaps.owned
    refine ⟨h.pages.marked_of_mem (h.tables.allocated hrole (by simp)), fun hmarked => ?_⟩
    exact ((hfrees.allocated p).mp (hpages'.mem_of_marked hmarked)).2 ⟨va, hva, hmaps⟩

end Boot

end BayosKernel
