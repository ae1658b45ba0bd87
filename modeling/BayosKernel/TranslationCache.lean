import BayosKernel.PageOwnership

/-!
The calls of `memory.c` on the current address space, beside the processor's
cache of translations.

The cache is filled from present mappings at any time and emptied by `invlpg`
and by a CR3 load. A region call is its loop, one turn a step, and a turn of
`free_region` gives the frame back before it clears the entry.
-/

namespace BayosKernel

open Foundation

structure CachedEntry where
  page : Nat
  frame : Nat
  rights : Nat
  deriving DecidableEq, Repr

/-- The region call that is running, with the value of `va`. -/
inductive RegionCall where
  | idle
  | mapping (va stop flags : Nat)
  | freeing (va stop : Nat)
  | clearing (pte va stop : Nat)
  deriving DecidableEq, Repr

structure CacheState where
  st : PageState
  tlb : List CachedEntry
  call : RegionCall

inductive CacheAction where
  | map (virt flags : Nat)
  | allocateRegion (start stop flags : Nat)
  | freeRegion (start stop : Nat)
  | turn
  | fill (va : Nat)
  | loadCr3
  deriving DecidableEq, Repr

def pageOf (va : Nat) : Nat := va / 0x1000 * 0x1000

def invlpg (tlb : List CachedEntry) (va : Nat) : List CachedEntry :=
  tlb.filter fun e => e.page ≠ pageOf va

namespace CacheState

/-- `map_memory_page` ends with `invlpg`. -/
def mapPage (s : CacheState) (cr3 virt flags : Nat) : Option CacheState :=
  (s.st.mapMemoryPage cr3 virt flags).map fun st => { s with st := st, tlb := invlpg s.tlb virt }

def turn (s : CacheState) (cr3 : Nat) : Option CacheState :=
  match s.call with
  | .idle => none
  | .mapping va stop flags =>
      if va < stop then
        (s.mapPage cr3 va flags).map fun s =>
          { s with call := .mapping (add64 va 0x1000) stop flags }
      else some { s with call := .idle }
  | .freeing va stop =>
      if va < stop then
        match walk s.st.mem cr3 va with
        | none => some { s with call := .freeing (add64 va 0x1000) stop }
        | some pte =>
            if s.st.mem.load 8 pte &&& 1 = 0 then
              some { s with call := .freeing (add64 va 0x1000) stop }
            else
              some { s with st := s.st.freePage (pteAddr (s.st.mem.load 8 pte)),
                            call := .clearing pte va stop }
      else some { s with call := .idle }
  | .clearing pte va stop =>
      some { s with st := { s.st with mem := s.st.mem.store 8 pte 0 },
                    call := .freeing (add64 va 0x1000) stop }

/-- The processor caches the translation of a present mapping. -/
def fill (s : CacheState) (cr3 va : Nat) : Option CacheState :=
  match walk s.st.mem cr3 va with
  | none => none
  | some pte =>
      if s.st.mem.load 8 pte &&& 1 = 0 then none
      else
        let e := ⟨pageOf va, pteAddr (s.st.mem.load 8 pte), effectiveRights s.st.mem cr3 va⟩
        some { s with tlb := e :: s.tlb }

def step (cr3 : Nat) (s : CacheState) : CacheAction → Option CacheState
  | .map virt flags => if s.call = .idle then s.mapPage cr3 virt flags else none
  | .allocateRegion start stop flags =>
      if s.call = .idle then some { s with call := .mapping (pageRoundDown start) stop flags }
      else none
  | .freeRegion start stop =>
      if s.call = .idle then some { s with call := .freeing (pageRoundDown start) stop } else none
  | .turn => s.turn cr3
  | .fill va => s.fill cr3 va
  | .loadCr3 => some { s with tlb := [] }

end CacheState

def cacheMachine (cr3 : Nat) : Machine CacheState CacheAction := ⟨CacheState.step cr3⟩

/-- User addresses and flags that leave the address bits alone. -/
def CacheAction.Valid : CacheAction → Prop
  | .map virt flags => virt < 0x800000000000 ∧ PageFlags flags
  | .allocateRegion _ stop flags => stop ≤ 0x800000000000 ∧ PageFlags flags
  | .freeRegion _ stop => stop ≤ 0x800000000000
  | .fill va => va < 0x800000000000
  | .turn => True
  | .loadCr3 => True

instance : DecidablePred CacheAction.Valid
  | .map _ _ => inferInstanceAs (Decidable (_ ∧ _))
  | .allocateRegion _ _ _ => inferInstanceAs (Decidable (_ ∧ _))
  | .freeRegion _ _ => inferInstanceAs (Decidable (_ ≤ _))
  | .fill _ => inferInstanceAs (Decidable (_ < _))
  | .turn => isTrue trivial
  | .loadCr3 => isTrue trivial

namespace RegionCall

/-- The next turn of `free_region` is about the page. -/
def Visits : RegionCall → Nat → Prop
  | .freeing va stop, page => page = va ∧ va < stop
  | _, _ => False

/-- The frame of the page is given back, its entry is not yet cleared. -/
def Clears : RegionCall → Nat → Prop
  | .clearing _ va _, page => page = va
  | _, _ => False

instance : (call : RegionCall) → DecidablePred call.Visits
  | .freeing va stop => fun page => inferInstanceAs (Decidable (page = va ∧ va < stop))
  | .idle => fun _ => isFalse id
  | .mapping _ _ _ => fun _ => isFalse id
  | .clearing _ _ _ => fun _ => isFalse id

instance : (call : RegionCall) → DecidablePred call.Clears
  | .clearing _ va _ => fun page => inferInstanceAs (Decidable (page = va))
  | .idle => fun _ => isFalse id
  | .mapping _ _ _ => fun _ => isFalse id
  | .freeing _ _ => fun _ => isFalse id

end RegionCall

/-- No translation of a page is cached when `free_region` comes to it, and none
is filled between the release of its frame and the clearing of its entry. -/
def CacheAction.Quiet (s : CacheState) : CacheAction → Prop
  | .turn => ∀ e ∈ s.tlb, ¬s.call.Visits e.page
  | .fill va => ¬s.call.Clears (pageOf va)
  | _ => True

instance (s : CacheState) : DecidablePred (CacheAction.Quiet s)
  | .turn => inferInstanceAs (Decidable (∀ e ∈ s.tlb, ¬s.call.Visits e.page))
  | .fill va => inferInstanceAs (Decidable (¬s.call.Clears (pageOf va)))
  | .map _ _ => isTrue trivial
  | .allocateRegion _ _ _ => isTrue trivial
  | .freeRegion _ _ => isTrue trivial
  | .loadCr3 => isTrue trivial

/-- No cached entry refers to a frame whose bit in the bitmap is clear. -/
def CacheState.Backed (s : CacheState) : Prop := ∀ e ∈ s.tlb, s.st.Marked e.frame

/-- Every cached entry is a current mapping of a user page. -/
def CachedMaps (own : Nat → Option Role) (cr3 : Nat) (tlb : List CachedEntry) : Prop :=
  ∀ e ∈ tlb, (e.page < 0x800000000000 ∧ e.page % 0x1000 = 0) ∧ Maps own cr3 e.page e.frame

def RegionCall.Valid : RegionCall → Prop
  | .idle => True
  | .mapping _ stop flags => stop ≤ 0x800000000000 ∧ PageFlags flags
  | .freeing va stop => stop ≤ 0x800000000000 ∧ va % 0x1000 = 0
  | .clearing _ va stop => stop ≤ 0x800000000000 ∧ va % 0x1000 = 0 ∧ va < stop

/-- In front of the clearing of an entry, `base` is the state in which the turn
began. -/
structure CacheInv (sites : List Site) (cr3 : Nat) (s : CacheState) : Prop where
  valid : s.call.Valid
  cached : ∃ base own, PageInv base sites ∧ TableInv sites base [cr3] own ∧
    CachedMaps own cr3 s.tlb ∧
    match s.call with
    | .clearing pte va _ => walk base.mem cr3 va = some pte ∧ base.mem.load 8 pte &&& 1 ≠ 0 ∧
        s.st = base.freePage (pteAddr (base.mem.load 8 pte)) ∧ ∀ e ∈ s.tlb, e.page ≠ va
    | _ => s.st = base

namespace CacheInv

variable {sites : List Site} {cr3 : Nat} {s s' : CacheState}

/-- The invariant where no entry is about to be cleared. -/
theorem of_tables {own : Nat → Option Role} (hvalid : s.call.Valid)
    (hcall : ∀ pte va stop, s.call ≠ .clearing pte va stop) (hpages : PageInv s.st sites)
    (htables : TableInv sites s.st [cr3] own) (hcached : CachedMaps own cr3 s.tlb) :
    CacheInv sites cr3 s := by
  refine ⟨hvalid, s.st, own, hpages, htables, hcached, ?_⟩
  split
  · rename_i pte va stop heq
    exact absurd heq (hcall pte va stop)
  · rfl

theorem tables (h : CacheInv sites cr3 s) (hcall : ∀ pte va stop, s.call ≠ .clearing pte va stop) :
    ∃ own, PageInv s.st sites ∧ TableInv sites s.st [cr3] own ∧ CachedMaps own cr3 s.tlb := by
  obtain ⟨base, own, hpages, htables, hcached, hbase⟩ := h.cached
  split at hbase
  · rename_i pte va stop heq
    exact absurd heq (hcall pte va stop)
  · rw [hbase]
    exact ⟨own, hpages, htables, hcached⟩

theorem backed (hphys : Physical sites) (h : CacheInv sites cr3 s) : s.Backed := by
  obtain ⟨base, own, hpages, htables, hcached, hbase⟩ := h.cached
  intro e he
  obtain ⟨⟨huser, halign⟩, hmaps⟩ := hcached e he
  obtain ⟨p, i, howned⟩ := hmaps.owned
  have hmem := htables.allocated howned (by simp)
  split at hbase
  · rename_i pte va stop heq
    obtain ⟨hwalk, hpresent, hst, hnot⟩ := hbase
    have hvalid := h.valid
    rw [heq] at hvalid
    obtain ⟨hstop, hva, hlt⟩ := hvalid
    have hfreed := htables.walk_present hpages hphys (by simp) (by omega) hwalk hpresent
    obtain ⟨p', i', howned'⟩ := hfreed.owned
    have hne : e.frame ≠ pteAddr (base.mem.load 8 pte) := by
      intro heq
      rw [heq] at hmaps
      have := (hmaps.injective hfreed (by omega) (by omega)).2
      have := hnot e he
      omega
    rw [hst]
    exact (hpages.freePage (htables.allocated howned' (by simp))).1.marked_of_mem
      ((List.mem_erase_of_ne hne).mpr hmem)
  · rw [hbase]
    exact hpages.marked_of_mem hmem

/-- `map_memory_page` keeps all mappings; its `invlpg` only empties the cache. -/
theorem mapPage (hphys : Physical sites) {virt flags : Nat} {own : Nat → Option Role}
    (hvirt : virt < 0x800000000000) (hflags : PageFlags flags) (hpages : PageInv s.st sites)
    (htables : TableInv sites s.st [cr3] own) (hcached : CachedMaps own cr3 s.tlb)
    (hmap : s.mapPage cr3 virt flags = some s') :
    s'.call = s.call ∧ ∃ own', PageInv s'.st sites ∧ TableInv sites s'.st [cr3] own' ∧
      CachedMaps own' cr3 s'.tlb := by
  obtain ⟨st', hmap', rfl⟩ := Option.map_eq_some_iff.mp hmap
  obtain ⟨own', -, hpages', htables', hgrows, -⟩ :=
    htables.mapMemoryPage hpages hphys (List.mem_singleton_self cr3) hvirt hflags hmap'
  refine ⟨rfl, own', hpages', htables', fun e he => ?_⟩
  obtain ⟨hpage, hmaps⟩ := hcached e (List.mem_of_mem_filter he)
  exact ⟨hpage, Reaches.mono hmaps hgrows.keeps⟩

theorem fill_step (hphys : Physical sites) (h : CacheInv sites cr3 s) {va : Nat}
    (hva : va < 0x800000000000) (hquiet : (CacheAction.fill va).Quiet s)
    (hfill : s.fill cr3 va = some s') : CacheInv sites cr3 s' := by
  obtain ⟨base, own, hpages, htables, hcached, hbase⟩ := h.cached
  have hsame : walk s.st.mem cr3 va = walk base.mem cr3 va ∧
      ∀ pte, walk base.mem cr3 va = some pte → s.st.mem.load 8 pte = base.mem.load 8 pte := by
    split at hbase
    · rename_i pte va' stop heq
      obtain ⟨hwalk, hpresent, hst, -⟩ := hbase
      have hvalid := h.valid
      rw [heq] at hvalid
      obtain ⟨hstop, -, hlt⟩ := hvalid
      obtain ⟨p, i, howned⟩ :=
        (htables.walk_present hpages hphys (by simp) (by omega) hwalk hpresent).owned
      rw [hst]
      exact htables.walk_congr hpages hphys (by simp) hva
        (hpages.freePage (htables.allocated howned (by simp))).2
    · rw [hbase]
      exact ⟨rfl, fun _ _ => rfl⟩
  rw [CacheState.fill, hsame.1] at hfill
  cases hwalk : walk base.mem cr3 va with
  | none => simp [hwalk] at hfill
  | some pte =>
      simp only [hwalk, hsame.2 pte hwalk] at hfill
      split at hfill
      · cases hfill
      · rename_i hpresent
        cases hfill
        have hmaps := htables.walk_present hpages hphys (by simp) hva hwalk hpresent
        have hpage : pageOf va < 0x800000000000 ∧ pageOf va % 0x1000 = 0 := by
          unfold pageOf
          omega
        refine ⟨h.valid, base, own, hpages, htables, fun e he => ?_, ?_⟩
        · rcases List.mem_cons.mp he with rfl | he
          · exact ⟨hpage, Maps.page.mpr hmaps⟩
          · exact hcached e he
        · simp only
          split at hbase
          · rename_i pte' va' stop heq
            obtain ⟨hwalk', hpresent', hst, hnot⟩ := hbase
            refine ⟨hwalk', hpresent', hst, fun e he => ?_⟩
            rcases List.mem_cons.mp he with rfl | he
            · intro hpage
              refine hquiet ?_
              rw [heq]
              exact hpage
            · exact hnot e he
          · exact hbase

theorem turn_step (hphys : Physical sites) (h : CacheInv sites cr3 s)
    (hquiet : CacheAction.turn.Quiet s) (hturn : s.turn cr3 = some s') :
    CacheInv sites cr3 s' := by
  have hvalid := h.valid
  have hnext : ∀ {va stop}, va < stop → stop ≤ 0x800000000000 →
      add64 va 0x1000 = va + 0x1000 := by
    intro va stop hlt hstop
    unfold add64
    omega
  rw [CacheState.turn] at hturn
  cases hcall : s.call with
  | idle => simp [hcall] at hturn
  | mapping va stop flags =>
      obtain ⟨own, hpages, htables, hcached⟩ := h.tables (by simp [hcall])
      rw [hcall] at hvalid
      obtain ⟨hstop, hflags⟩ := hvalid
      simp only [hcall] at hturn
      split at hturn
      · rename_i hlt
        obtain ⟨s₁, hmap, rfl⟩ := Option.map_eq_some_iff.mp hturn
        obtain ⟨-, own', hpages', htables', hcached'⟩ :=
          mapPage hphys (by omega) hflags hpages htables hcached hmap
        exact of_tables ⟨hstop, hflags⟩ (by simp) hpages' htables' hcached'
      · cases hturn
        exact of_tables trivial (by simp) hpages htables hcached
  | freeing va stop =>
      obtain ⟨own, hpages, htables, hcached⟩ := h.tables (by simp [hcall])
      rw [hcall] at hvalid
      obtain ⟨hstop, hva⟩ := hvalid
      simp only [hcall] at hturn
      split at hturn
      · rename_i hlt
        have hvalid' : (RegionCall.freeing (add64 va 0x1000) stop).Valid := by
          rw [hnext hlt hstop]
          exact ⟨hstop, by omega⟩
        split at hturn
        · cases hturn
          exact of_tables hvalid' (by simp) hpages htables hcached
        · rename_i pte hwalk
          split at hturn
          · cases hturn
            exact of_tables hvalid' (by simp) hpages htables hcached
          · rename_i hpresent
            cases hturn
            refine ⟨⟨hstop, hva, hlt⟩, s.st, own, hpages, htables, hcached, hwalk, hpresent, rfl,
              fun e he hpage => ?_⟩
            refine hquiet e he ?_
            rw [hcall]
            exact ⟨hpage, hlt⟩
      · cases hturn
        exact of_tables trivial (by simp) hpages htables hcached
  | clearing pte va stop =>
      obtain ⟨base, own, hpages, htables, hcached, hbase⟩ := h.cached
      rw [hcall] at hvalid
      obtain ⟨hstop, hva, hlt⟩ := hvalid
      simp only [hcall] at hturn hbase
      obtain ⟨hwalk, hpresent, hst, hnot⟩ := hbase
      cases hturn
      have hvalid' : (RegionCall.freeing (add64 va 0x1000) stop).Valid := by
        rw [hnext hlt hstop]
        exact ⟨hstop, by omega⟩
      -- both halves of the turn together are one turn of `free_region`
      have hboth : ({ s.st with mem := s.st.mem.store 8 pte 0 } : PageState) =
          base.freeRegionPage cr3 va := by
        simp only [PageState.freeRegionPage, hwalk, if_neg hpresent, hst]
      have huser : va < 0x800000000000 := by omega
      rcases htables.freeRegionPage hpages hphys (List.mem_singleton_self cr3) huser with
        ⟨c, hmaps, hpages', htables', -⟩ | ⟨heq, -⟩
      · obtain ⟨p, i, howned⟩ := hmaps.owned
        suffices hnew : CachedMaps (Function.update own c none) cr3 s.tlb from
          of_tables hvalid' (by simp) (by rwa [hboth]) (by rwa [hboth]) hnew
        intro e he
        obtain ⟨⟨hpage, halign⟩, hcache⟩ := hcached e he
        refine ⟨⟨hpage, halign⟩, (Reaches.erase howned (by simp [pathIndices])).mpr ⟨hcache, ?_⟩⟩
        intro hframe
        rw [hframe] at hcache
        have := (hcache.injective hmaps (by omega) (by omega)).2
        have := hnot e he
        omega
      · rw [heq] at hboth
        exact of_tables hvalid' (by simp) (by rwa [hboth]) (by rwa [hboth]) hcached

theorem step (hphys : Physical sites) (h : CacheInv sites cr3 s) {a : CacheAction}
    (hvalid : a.Valid) (hquiet : a.Quiet s) (hstep : s.step cr3 a = some s') :
    CacheInv sites cr3 s' := by
  cases a with
  | map virt flags =>
      simp only [CacheState.step] at hstep
      split at hstep
      · rename_i hidle
        obtain ⟨own, hpages, htables, hcached⟩ := h.tables (by simp [hidle])
        obtain ⟨hcall, own', hpages', htables', hcached'⟩ :=
          mapPage hphys hvalid.1 hvalid.2 hpages htables hcached hstep
        rw [hidle] at hcall
        exact of_tables (by rw [hcall]; trivial) (by simp [hcall]) hpages' htables' hcached'
      · cases hstep
  | allocateRegion start stop flags =>
      simp only [CacheState.step] at hstep
      split at hstep
      · rename_i hidle
        obtain ⟨own, hpages, htables, hcached⟩ := h.tables (by simp [hidle])
        cases hstep
        exact of_tables hvalid (by simp) hpages htables hcached
      · cases hstep
  | freeRegion start stop =>
      simp only [CacheState.step] at hstep
      split at hstep
      · rename_i hidle
        obtain ⟨own, hpages, htables, hcached⟩ := h.tables (by simp [hidle])
        cases hstep
        exact of_tables ⟨hvalid, pageRoundDown_aligned start⟩ (by simp) hpages htables hcached
      · cases hstep
  | turn => exact h.turn_step hphys hquiet hstep
  | fill va => exact h.fill_step hphys hvalid hquiet hstep
  | loadCr3 =>
      cases hstep
      obtain ⟨base, own, hpages, htables, -, hbase⟩ := h.cached
      refine ⟨h.valid, base, own, hpages, htables, by simp [CachedMaps], ?_⟩
      simp only
      split at hbase
      · obtain ⟨hwalk, hpresent, hst, -⟩ := hbase
        exact ⟨hwalk, hpresent, hst, by simp⟩
      · exact hbase

end CacheInv

/-- In every run in which no translation of a page is cached while
`free_region` unmaps it, no cached entry refers to a free frame. -/
theorem cacheMachine_backed {sites : List Site} {cr3 : Nat} {st : PageState}
    {run : List CacheAction} {s : CacheState} (hinit : SpaceInit sites [cr3] st)
    (hquiet : (cacheMachine cr3).Meets (fun s a => a.Valid ∧ a.Quiet s) ⟨st, [], .idle⟩ run)
    (hrun : (cacheMachine cr3).exec ⟨st, [], .idle⟩ run = some s) : s.Backed := by
  obtain ⟨own, htables⟩ := hinit.inv.tables
  have hstart : CacheInv sites cr3 ⟨st, [], .idle⟩ :=
    CacheInv.of_tables trivial (by simp) hinit.pages htables (by simp [CachedMaps])
  have hinv : CacheInv sites cr3 s :=
    (cacheMachine cr3).exec_invariant
      (fun _ _ _ h ha hstep => h.step hinit.physical ha.1 ha.2 hstep) hstart hquiet hrun
  exact hinv.backed hinit.physical

/-- A page is mapped, used, and unmapped after a CR3 load; the page behind it stays in use. -/
def useAndSwitch : List CacheAction :=
  [.map 0x400000 7, .fill 0x400010, .allocateRegion 0x401000 0x402000 7, .turn, .turn, .loadCr3,
    .fill 0x401000, .freeRegion 0x400000 0x401000, .turn, .turn, .turn]

theorem cacheMachine_backed_useAndSwitch : ∃ st s, startSpaces 1 = some st ∧
    (cacheMachine 0x101000).exec ⟨st, [], .idle⟩ useAndSwitch = some s ∧
      s.tlb = [⟨0x401000, 0x106000, 6⟩] ∧ s.Backed := by
  have hrun : ((startSpaces 1).bind fun st =>
      ((cacheMachine 0x101000).exec ⟨st, [], .idle⟩ useAndSwitch).map fun s =>
        (st.allocated, s.tlb, decide ((cacheMachine 0x101000).Meets
          (fun s a => CacheAction.Valid a ∧ CacheAction.Quiet s a) ⟨st, [], .idle⟩
          useAndSwitch))) = some ([0x101000], [⟨0x401000, 0x106000, 6⟩], true) := by decide +kernel
  obtain ⟨st, hstart, hmap⟩ := Option.bind_eq_some_iff.mp hrun
  obtain ⟨s, hexec, heq⟩ := Option.map_eq_some_iff.mp hmap
  obtain ⟨hroots, heq⟩ := Prod.mk.inj heq
  obtain ⟨htlb, hquiet⟩ := Prod.mk.inj heq
  obtain ⟨sites, hinit⟩ := startSpaces_init hstart
  rw [hroots] at hinit
  exact ⟨st, s, hstart, hexec, htlb,
    cacheMachine_backed hinit (of_decide_eq_true hquiet) hexec⟩

/-- A page is mapped, used and unmapped: its translation stays in the cache. -/
theorem useAndFree_notBacked : ∃ st s, startSpaces 1 = some st ∧
    (cacheMachine 0x101000).exec ⟨st, [], .idle⟩ [.map 0x400000 7, .fill 0x400000,
      .freeRegion 0x400000 0x401000, .turn, .turn, .turn] = some s ∧
      s.call = .idle ∧ s.tlb = [⟨0x400000, 0x105000, 6⟩] ∧ ¬s.Backed := by
  have hrun : ((startSpaces 1).bind fun st =>
      ((cacheMachine 0x101000).exec ⟨st, [], .idle⟩ [.map 0x400000 7, .fill 0x400000,
        .freeRegion 0x400000 0x401000, .turn, .turn, .turn]).map fun s =>
          (s.call, s.tlb, decide (∀ a ∈ s.st.areas, ∀ k < (Area.read s.st.mem a).pagesCount,
            0x105000 = (Area.read s.st.mem a).firstPage + k * 0x1000 →
              Bitmap.bit s.st.mem (Area.data a) k = false))) =
      some (.idle, [⟨0x400000, 0x105000, 6⟩], true) := by decide +kernel
  obtain ⟨st, hstart, hmap⟩ := Option.bind_eq_some_iff.mp hrun
  obtain ⟨s, hexec, heq⟩ := Option.map_eq_some_iff.mp hmap
  obtain ⟨hcall, heq⟩ := Prod.mk.inj heq
  obtain ⟨htlb, hclear⟩ := Prod.mk.inj heq
  refine ⟨st, s, hstart, hexec, hcall, htlb, fun hbacked => ?_⟩
  obtain ⟨a, ha, k, hk, hpage, hbit⟩ := hbacked ⟨0x400000, 0x105000, 6⟩ (by simp [htlb])
  rw [of_decide_eq_true hclear a ha k hk hpage] at hbit
  cases hbit

end BayosKernel
