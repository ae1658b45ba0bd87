import BayosKernel.Foundation.PrivateMemory
import BayosKernel.AddressSpaces

/-!
The user halves of the address spaces are private memories: a program sees what was
stored through its own address space.
-/

namespace BayosKernel

open Foundation

/-- The byte that a program reads at an address. -/
def userByte (m : ByteMemory) (cr3 va : Nat) : Option UInt8 :=
  match walk m cr3 va with
  | none => none
  | some pte =>
      if m.load 8 pte &&& 1 = 0 then none else some (m (pteAddr (m.load 8 pte) + va % 0x1000))

/-- The user halves. -/
def userView (roots : List Nat) (m : ByteMemory) : Memories Nat Nat UInt8 := fun cr3 va =>
  if cr3 ∈ roots ∧ va < 0x800000000000 then userByte m cr3 va else none

/-- The addresses whose pages begin in a region. -/
def regionBytes (start stop : Nat) : Set Nat :=
  {va | va < 0x800000000000 ∧ InRegion start stop (va / 0x1000 * 0x1000)}

/-- What a call does to the private memories. -/
def SpaceAction.memory : SpaceAction → MemoryAction Nat Nat UInt8
  | .write cr3 va v => .store cr3 va v
  | .map cr3 virt _ =>
      .reserve cr3 (regionBytes (virt / 0x1000 * 0x1000) (virt / 0x1000 * 0x1000 + 0x1000))
  | .allocateRegion cr3 start stop _ => .reserve cr3 (regionBytes (pageRoundDown start) stop)
  | .freeRegion cr3 start stop => .release cr3 (regionBytes (pageRoundDown start) stop)

section

variable {st st' : PageState} {sites : List Site} {roots : List Nat} {own own' : Nat → Option Role}
  {cr3 va c start stop : Nat}

/-- A mapped address has a byte in its page, and another one has none. -/
theorem TableInv.userByte_cases (h : TableInv sites st roots own) (hpages : PageInv st sites)
    (hphys : Physical sites) (hroot : cr3 ∈ roots) (hva : va < 0x800000000000) :
    (∃ c, Maps own cr3 va c ∧ userByte st.mem cr3 va = some (st.mem (c + va % 0x1000))) ∨
      (∀ c, ¬Maps own cr3 va c) ∧ userByte st.mem cr3 va = none := by
  rcases h.leaf_cases hpages hphys hroot hva with
    ⟨c, pte, hmaps, hwalk, hone, haddr⟩ | ⟨habsent, hnone⟩
  · refine Or.inl ⟨c, hmaps, ?_⟩
    simp only [userByte, hwalk, hone, haddr]
    rfl
  · refine Or.inr ⟨hnone, ?_⟩
    cases hwalk : walk st.mem cr3 va with
    | none => simp only [userByte, hwalk]
    | some pte => simp only [userByte, hwalk, habsent pte hwalk, if_true]

theorem TableInv.userByte_maps (h : TableInv sites st roots own) (hpages : PageInv st sites)
    (hphys : Physical sites) (hroot : cr3 ∈ roots) (hva : va < 0x800000000000)
    (hmaps : Maps own cr3 va c) : userByte st.mem cr3 va = some (st.mem (c + va % 0x1000)) := by
  rcases h.userByte_cases hpages hphys hroot hva with ⟨c', hmaps', hbyte⟩ | ⟨hnone, -⟩
  · rw [Maps.unique h hpages hmaps hmaps']
    exact hbyte
  · exact absurd hmaps (hnone c)

theorem TableInv.userByte_none_iff (h : TableInv sites st roots own) (hpages : PageInv st sites)
    (hphys : Physical sites) (hroot : cr3 ∈ roots) (hva : va < 0x800000000000) :
    userByte st.mem cr3 va = none ↔ ∀ c, ¬Maps own cr3 va c := by
  rcases h.userByte_cases hpages hphys hroot hva with ⟨c', hmaps, hbyte⟩ | ⟨hnone, hbyte⟩
  · rw [hbyte]
    exact ⟨fun heq => (nomatch heq), fun hnone => absurd hmaps (hnone c')⟩
  · exact ⟨fun _ => hnone, fun _ => hbyte⟩

theorem userView_eq (m : ByteMemory) (hroot : cr3 ∈ roots) (hva : va < 0x800000000000) :
    userView roots m cr3 va = userByte m cr3 va := if_pos ⟨hroot, hva⟩

theorem userView_outside (m : ByteMemory) (hout : ¬(cr3 ∈ roots ∧ va < 0x800000000000)) :
    userView roots m cr3 va = none := if_neg hout

/-- Views that agree on the user halves. -/
theorem userView_congr {m m' : ByteMemory} {t x : Nat}
    (h : t ∈ roots → x < 0x800000000000 → userByte m' t x = userByte m t x) :
    userView roots m' t x = userView roots m t x := by
  by_cases hin : t ∈ roots ∧ x < 0x800000000000
  · rw [userView_eq m' hin.1 hin.2, userView_eq m hin.1 hin.2]
    exact h hin.1 hin.2
  · rw [userView_outside m' hin, userView_outside m hin]

/-- A store of a program. -/
theorem TableInv.memoryStep_write (h : TableInv sites st roots own) (hpages : PageInv st sites)
    (hphys : Physical sites) (hroot : cr3 ∈ roots) (hva : va < 0x800000000000) {v : UInt8}
    (hwrite : st.write cr3 va v = some st') :
    MemoryStep (userView roots st.mem) (.store cr3 va v) (userView roots st'.mem) := by
  obtain ⟨c, hmaps, rfl, hpages', h'⟩ := h.write hpages hphys hroot hva hwrite
  have halign : ∀ {d t x : Nat}, Maps own t x d → d % 0x1000 = 0 := by
    intro d t x hd
    obtain ⟨p, i, howned⟩ := hd.owned
    exact (h.frame hpages howned).aligned
  refine .store ?_ ?_ fun t x hother => userView_congr fun ht hx => ?_
  · rw [userView_eq _ hroot hva, h.userByte_maps hpages hphys hroot hva hmaps]
    exact nofun
  · rw [userView_eq _ hroot hva, h'.userByte_maps hpages' hphys hroot hva hmaps]
    exact congrArg some (Function.update_self _ _ _)
  · rcases h.userByte_cases hpages hphys ht hx with ⟨d, hd, hbyte⟩ | ⟨hnone, hbyte⟩
    · rw [hbyte, h'.userByte_maps hpages' hphys ht hx hd]
      refine congrArg some (Function.update_of_ne (fun heq => hother ?_) _ _)
      -- one byte of one page is one address of one space
      have hc := halign hmaps
      have hdc : d = c := by
        have := halign hd
        omega
      subst hdc
      obtain ⟨hspace, hpage⟩ := hd.injective hmaps (by omega) (by omega)
      exact ⟨hspace, by omega⟩
    · rw [hbyte]
      exact (h'.userByte_none_iff hpages' hphys ht hx).mpr hnone

/-- A page keeps its bytes when no table is made of it. -/
theorem Allocates.byte_kept (hall : Allocates sites st st' own own' cr3 start stop)
    (h : TableInv sites st roots own) (hpages : PageInv st sites) {t x : Nat}
    (hmaps : Maps own t x c) : st'.mem (c + x % 0x1000) = st.mem (c + x % 0x1000) := by
  obtain ⟨p, i, hc⟩ := hmaps.owned
  refine hall.grows.data c (h.frame hpages hc) (fun r hr => ?_) _ (Nat.le_add_right _ _) (by omega)
  rw [hall.grows.keeps c _ hc] at hr
  cases hr
  rfl

theorem Allocates.memoryStep (hall : Allocates sites st st' own own' cr3 start stop)
    (h : TableInv sites st roots own) (hpages : PageInv st sites)
    (h' : TableInv sites st' roots own') (hpages' : PageInv st' sites) (hphys : Physical sites)
    (hroot : cr3 ∈ roots) (hstop : stop ≤ 0x800000000000) :
    MemoryStep (userView roots st.mem) (.reserve cr3 (regionBytes start stop))
      (userView roots st'.mem) := by
  refine .reserve (fun x hx => ?_) fun t x hkept => userView_congr fun ht hx => ?_
  · obtain ⟨d, hd⟩ := hall.mapped _ hx.2
    rw [userView_eq _ hroot hx.1, h'.userByte_maps hpages' hphys hroot hx.1 (Maps.page.mp hd)]
    exact nofun
  · rcases h.userByte_cases hpages hphys ht hx with ⟨d, hd, hbyte⟩ | ⟨hnone, hbyte⟩
    · rw [hbyte, h'.userByte_maps hpages' hphys ht hx (hd.mono hall.grows.keeps),
        hall.byte_kept h hpages hd]
    · rw [hbyte]
      refine (h'.userByte_none_iff hpages' hphys ht hx).mpr fun d hd => ?_
      rcases hall.maps_cases h hd hx hstop with hold | ⟨hspace, -, hin⟩
      · exact hnone d hold
      · rcases hkept with hcell | hout
        · rw [userView_eq _ ht hx] at hcell
          exact hcell hbyte
        · exact hout ⟨hspace, hx, hin⟩

theorem Frees.memoryStep (hfrees : Frees sites st st' own own' cr3 start stop)
    (h : TableInv sites st roots own) (hpages : PageInv st sites)
    (h' : TableInv sites st' roots own') (hpages' : PageInv st' sites) (hphys : Physical sites)
    (hroot : cr3 ∈ roots) (hstop : stop ≤ 0x800000000000) :
    MemoryStep (userView roots st.mem) (.release cr3 (regionBytes start stop))
      (userView roots st'.mem) := by
  refine .release (fun x hx => ?_) fun t x hkept => userView_congr fun ht hx => ?_
  · rw [userView_eq _ hroot hx.1]
    refine (h'.userByte_none_iff hpages' hphys hroot hx.1).mpr fun d hd => ?_
    obtain ⟨hold, hout⟩ := hfrees.maps_iff.mp hd
    exact hout ((mappedIn_iff hold hx.1 hstop).mpr ⟨rfl, hx.2⟩)
  · rcases h.userByte_cases hpages hphys ht hx with ⟨d, hd, hbyte⟩ | ⟨hnone, hbyte⟩
    · have hmaps : Maps own' t x d := hfrees.maps_iff.mpr ⟨hd, fun hin => by
        obtain ⟨hspace, hregion⟩ := (mappedIn_iff hd hx hstop).mp hin
        exact hkept ⟨hspace, hx, hregion⟩⟩
      obtain ⟨p, i, howned⟩ := hd.owned
      rw [hbyte, h'.userByte_maps hpages' hphys ht hx hmaps]
      refine congrArg some (hfrees.data d (h.frame hpages howned) (fun r hr => ?_) _
        (Nat.le_add_right _ _) (by omega))
      rw [howned] at hr
      cases hr
      rfl
    · rw [hbyte]
      exact (h'.userByte_none_iff hpages' hphys ht hx).mpr fun d hd =>
        hnone d (hfrees.maps_iff.mp hd).1

end

section

variable {st st' : PageState} {sites : List Site} {roots : List Nat} {fuel : Nat}

/-- Each call on an address space does to the private memories what it says. -/
theorem SpaceInv.memoryStep {a : SpaceAction} (h : SpaceInv sites roots st)
    (hphys : Physical sites) (hvalid : a.Valid roots) (hstep : spaceStep fuel st a = some st') :
    MemoryStep (userView roots st.mem) a.memory (userView roots st'.mem) := by
  obtain ⟨own, htables⟩ := h.tables
  cases a with
  | map cr3 virt flags =>
      obtain ⟨hroot, hvirt, hflags⟩ := hvalid
      obtain ⟨own', hpages', htables', hall⟩ := htables.mapMemoryPage_allocates h.pages hphys
        hroot hvirt (PageFlags.of_kernel hflags) hstep
      exact hall.memoryStep htables h.pages htables' hpages' hphys hroot (by omega)
  | allocateRegion cr3 start stop flags =>
      obtain ⟨hroot, hstop, hflags⟩ := hvalid
      obtain ⟨own', hpages', htables', hall⟩ :=
        htables.allocateRegion h.pages hphys hroot hstop (PageFlags.of_kernel hflags) hstep
      exact hall.memoryStep htables h.pages htables' hpages' hphys hroot hstop
  | freeRegion cr3 start stop =>
      obtain ⟨hroot, hstop⟩ := hvalid
      obtain ⟨own', hpages', htables', hfrees⟩ :=
        htables.freeRegion h.pages hphys hroot hstop hstep
      exact hfrees.memoryStep htables h.pages htables' hpages' hphys hroot hstop
  | write cr3 va v =>
      obtain ⟨hroot, hva⟩ := hvalid
      exact htables.memoryStep_write h.pages hphys hroot hva hstep

theorem SpaceInv.memoryRun {run : List SpaceAction} (h : SpaceInv sites roots st)
    (hphys : Physical sites) (hvalid : ∀ a ∈ run, a.Valid roots)
    (hrun : (spaceMachine fuel).exec st run = some st') :
    MemoryRun (userView roots st.mem) (run.map SpaceAction.memory) (userView roots st'.mem) := by
  induction run generalizing st with
  | nil =>
      cases hrun
      exact .nil _
  | cons a rest ih =>
      obtain ⟨st₁, hstep, hrest⟩ := (spaceMachine fuel).exec_cons_some hrun
      have ha : a.Valid roots := hvalid a List.mem_cons_self
      have hothers : ∀ b ∈ rest, b.Valid roots := fun b hb => hvalid b (List.mem_cons_of_mem a hb)
      exact .cons (h.memoryStep hphys ha hstep) (ih (h.step hphys ha hstep) hothers hrest)

/-- Over every run the user halves are private memories. What was stored through an
address space is read back through it until the next store there or the release of
the page, and a run without calls on an address space changes no byte of it. -/
theorem spaceMachine_private {st₀ : PageState} {run : List SpaceAction}
    (init : SpaceInit sites roots st₀) (valid : ∀ a ∈ run, a.Valid roots)
    (reached : (spaceMachine fuel).exec st₀ run = some st) :
    MemoryRun (userView roots st₀.mem) (run.map SpaceAction.memory) (userView roots st.mem) ∧
      (∀ pre post cr3 va v, run = pre ++ .write cr3 va v :: post →
        (∀ a ∈ post, ¬a.memory.Changes cr3 va) → userByte st.mem cr3 va = some v) ∧
      ∀ cr3 ∈ roots, (∀ a ∈ run, a.memory.space ≠ cr3) → ∀ va < 0x800000000000,
        userByte st.mem cr3 va = userByte st₀.mem cr3 va := by
  have hmemory := init.inv.memoryRun init.physical valid reached
  refine ⟨hmemory, ?_, ?_⟩
  · intro pre post cr3 va v hsplit hpost
    have hwrite : cr3 ∈ roots ∧ va < 0x800000000000 := valid (.write cr3 va v) (by simp [hsplit])
    rw [hsplit, List.map_append, List.map_cons] at hmemory
    have hback := hmemory.read_back (s := cr3) (c := va) (b := v) fun act hact => by
      obtain ⟨a, ha, rfl⟩ := List.mem_map.mp hact
      exact hpost a ha
    rwa [userView_eq st.mem hwrite.1 hwrite.2] at hback
  · intro cr3 hroot hrun va hva
    have hkept := hmemory.space_kept (s := cr3) fun act hact => by
      obtain ⟨a, ha, rfl⟩ := List.mem_map.mp hact
      exact hrun a ha
    have hbyte := congrFun hkept va
    rwa [userView_eq st.mem hroot hva, userView_eq st₀.mem hroot hva] at hbyte

/-- Two programs store at one address, and a page of the first goes to the second. -/
def storeAndReuse : List SpaceAction :=
  [.allocateRegion 0x101000 0x200000 0x202000 7, .map 0x102000 0x200000 7,
    .write 0x101000 0x200010 7, .write 0x102000 0x200010 8,
    .freeRegion 0x101000 0x201000 0x202000, .map 0x102000 0x201000 7, .write 0x102000 0x201010 9]

theorem spaceMachine_private_storeAndReuse : ∃ st₀ st, startSpaces 2 = some st₀ ∧
    (spaceMachine 3).exec st₀ storeAndReuse = some st ∧
      userByte st.mem 0x101000 0x200010 = some 7 := by
  have hrun : ((startSpaces 2).bind fun st₀ => ((spaceMachine 3).exec st₀ storeAndReuse).map
      fun _ => st₀.allocated) = some [0x102000, 0x101000] := by decide +kernel
  obtain ⟨st₀, hstart, hmap⟩ := Option.bind_eq_some_iff.mp hrun
  obtain ⟨st, hexec, hroots⟩ := Option.map_eq_some_iff.mp hmap
  obtain ⟨sites, hinit⟩ := startSpaces_init hstart
  refine ⟨st₀, st, hstart, hexec, (spaceMachine_private hinit ?_ hexec).2.1
    (storeAndReuse.take 2) (storeAndReuse.drop 3) _ _ _ rfl ?_⟩
  · rw [hroots]
    decide
  · simp only [storeAndReuse, List.drop_succ_cons, List.drop_zero, List.forall_mem_cons]
    refine ⟨fun h => absurd h.1 (by decide), fun h => ?_, id, fun h => absurd h.1 (by decide),
      nofun⟩
    -- the released page is the next one
    exact absurd h.2.2.1 (by decide)

end

end BayosKernel
