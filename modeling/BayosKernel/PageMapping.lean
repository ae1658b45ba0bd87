import BayosKernel.PageAgreement

/-!
`map_memory_page` walks down the tables, creates those that are missing and
fills the last entry; no entry that is present changes.
-/

namespace BayosKernel

open Foundation

namespace TableInv

variable {st st₁ : PageState} {sites : List Site} {roots : List Nat} {own : Nat → Option Role}

/-- An entry of an owned table is zero, or present with the page it refers to. -/
theorem entry_cases (h : TableInv sites st roots own) (hpages : PageInv st sites)
    (hphys : Physical sites) {t i : Nat} {r : Role} (ht : own t = some r) (hr : 0 < r.height)
    (hi : i < r.width) :
    entry st.mem t i = 0 ∨
      ∃ c f, PageFlags f ∧ entry st.mem t i = c + f ∧ own c = some ⟨r.height - 1, t, i⟩ ∧
        entry st.mem t i &&& 1 = 1 ∧ entry st.mem t i &&& 0x80 = 0 ∧
        pteAddr (entry st.mem t i) = c ∧ entry st.mem t i &&& 0xfffffffffffff000 = c := by
  rcases h.entries t r ht hr i hi with hzero | ⟨c, f, hf, he, hc⟩
  · exact Or.inl hzero
  · obtain ⟨-, hone, hps, haddr, hmask⟩ :=
      word_fields (h.frame hpages hc).aligned (h.lt hpages hphys hc) hf
    rw [he]
    exact Or.inr ⟨c, f, hf, rfl, hc, hone, hps, haddr, hmask⟩

/-- The entry by which a table or a page is linked in. -/
theorem child_entry (h : TableInv sites st roots own) (hpages : PageInv st sites)
    (hphys : Physical sites) {d k t i : Nat} (hd : own d = some ⟨k, t, i⟩) (hk : k < 4) :
    entry st.mem t i &&& 1 = 1 ∧ pteAddr (entry st.mem t i) = d ∧
      entry st.mem t i &&& 0xfffffffffffff000 = d := by
  obtain ⟨-, f, -, -, -, hf, he⟩ := h.linked d _ hd hk
  obtain ⟨-, hone, -, haddr, hmask⟩ :=
    word_fields (h.frame hpages hd).aligned (h.lt hpages hphys hd) hf
  rw [he]
  exact ⟨hone, haddr, hmask⟩

/-- An entry refers to one page. -/
theorem child_unique (h : TableInv sites st roots own) (hpages : PageInv st sites) {c d : Nat}
    {q r : Role} (hc : own c = some q) (hd : own d = some r) (hq : q.height < 4)
    (hr : r.height < 4) (hparent : q.parent = r.parent) (hindex : q.index = r.index) : c = d := by
  obtain ⟨-, f, -, -, -, hf, he⟩ := h.linked c q hc hq
  obtain ⟨-, g, -, -, -, hg, he'⟩ := h.linked d r hd hr
  have hca := (h.frame hpages hc).aligned
  have hda := (h.frame hpages hd).aligned
  have hfsmall := hf.1
  have hgsmall := hg.1
  rw [hparent, hindex] at he
  omega

/-- A fresh page becomes the child of an absent entry. -/
theorem attach (h : TableInv sites st roots own) (hpages : PageInv st sites) {t i f flags : Nat}
    {r : Role} {m' : ByteMemory} (ht : own t = some r) (hr : 0 < r.height) (hi : i < r.width)
    (hzero : entry st.mem t i = 0) (hflags : PageFlags flags) (hpages₁ : PageInv st₁ sites)
    (hareas : st₁.areas = st.areas)
    (hallocated : st₁.allocated = f :: st.allocated) (hfresh : f ∉ st.allocated)
    (hnew : entry m' t i = f + flags)
    (hother : ∀ p, Frame sites p → (1 < r.height → p ≠ f) → ∀ x, p ≤ x → x < p + 0x1000 →
      x < entryAddr t i ∨ entryAddr t i + 8 ≤ x → m' x = st.mem x)
    (hclear : 1 < r.height → ∀ j < 512, entry m' f j = 0) :
    TableInv sites { st₁ with mem := m' } roots
        (Function.update own f (some ⟨r.height - 1, t, i⟩)) ∧
      Grows sites st { st₁ with mem := m' } own
        (Function.update own f (some ⟨r.height - 1, t, i⟩)) := by
  have hnew' : ∀ {c q}, own c = some q → c ≠ f := fun hc =>
    h.ne_fresh hpages₁ (by simp [hallocated]) hfresh hc
  have hkeeps : ∀ c q, own c = some q →
      Function.update own f (some ⟨r.height - 1, t, i⟩) c = some q := by
    intro c q hc
    have hne : c ≠ f := hnew' hc
    simpa [Function.update, hne] using hc
  have hback : ∀ {c q}, Function.update own f (some ⟨r.height - 1, t, i⟩) c = some q →
      own c = some q ∨ (c = f ∧ q = ⟨r.height - 1, t, i⟩) := by
    intro c q hc
    by_cases hcf : c = f
    · rw [hcf, Function.update_self] at hc
      exact Or.inr ⟨hcf, (Option.some.inj hc).symm⟩
    · left
      simpa [Function.update, hcf] using hc
  have haligned : ∀ {c q}, own c = some q → c % 0x1000 = 0 :=
    fun hc => (h.frame hpages hc).aligned
  have hi' := Nat.lt_of_lt_of_le hi r.width_le
  have hta := haligned ht
  have hsame : ∀ u q, own u = some q → ∀ j < 512, ¬(u = t ∧ j = i) →
      entry m' u j = entry st.mem u j := by
    intro u q hu j hj hne
    refine ByteMemory.load_congr fun x hle hlt => ?_
    have hua := haligned hu
    simp only [entryAddr] at hle hlt hother
    exact hother u (h.frame hpages hu) (fun _ => hnew' hu) x (by omega) (by omega) (by omega)
  have hpresent : ∀ u q, own u = some q → ∀ j < q.width, entry st.mem u j ≠ 0 →
      entry m' u j = entry st.mem u j := by
    intro u q hu j hj hne
    refine hsame u q hu j (Nat.lt_of_lt_of_le hj q.width_le) ?_
    rintro ⟨rfl, rfl⟩
    exact hne hzero
  constructor
  · refine ⟨fun u hu => ?_, fun u q hu => ?_, fun u q hu hq j hj => ?_, fun c q hc hlt => ?_⟩
    · obtain ⟨q, hq, hheight⟩ := h.roots u hu
      exact ⟨q, hkeeps u q hq, hheight⟩
    · simp only [hallocated]
      rcases hback hu with hu | ⟨rfl, -⟩
      · exact (h.owned u q hu).imp_left (List.mem_cons_of_mem _)
      · exact Or.inl List.mem_cons_self
    · have hj' := Nat.lt_of_lt_of_le hj q.width_le
      rcases hback hu with hold | ⟨rfl, rfl⟩
      · by_cases hhere : u = t ∧ j = i
        · obtain ⟨rfl, rfl⟩ := hhere
          rw [ht] at hold
          cases hold
          exact Or.inr ⟨f, flags, hflags, hnew, by simp⟩
        · simp only
          rw [hsame u q hold j hj' hhere]
          rcases h.entries u q hold hq j hj with h0 | ⟨c, g, hg, he, hc⟩
          · exact Or.inl h0
          · exact Or.inr ⟨c, g, hg, he, hkeeps c _ hc⟩
      · simp only at hq
        exact Or.inl (hclear (by omega) j hj')
    · rcases hback hc with hold | ⟨rfl, rfl⟩
      · obtain ⟨q', g, hparent, hheight, hindex, hg, he⟩ := h.linked c q hold hlt
        refine ⟨q', g, hkeeps _ _ hparent, hheight, hindex, hg, ?_⟩
        rw [← he]
        refine hpresent _ q' hparent _ hindex ?_
        have := hg.2
        omega
      · exact ⟨r, flags, hkeeps t r ht, by simp only; omega, hi, hflags, hnew⟩
  · refine ⟨hareas, fun p hp => by simp [hallocated, hp], fun p hp => ?_, hkeeps, fun c q hc => ?_,
      fun u q hu _ j hj hne => hpresent u q hu j hj hne, fun u q hu hq j hle hlt => ?_,
      fun p hp hdata x hle hlt => hother p hp (fun hr hpf => ?_) x hle hlt ?_⟩
    · simp only [hallocated] at hp
      rcases List.mem_cons.mp hp with rfl | hp
      · exact Or.inr ⟨_, Function.update_self ..⟩
      · exact Or.inl hp
    · rcases hback hc with hc | ⟨rfl, -⟩
      · exact Or.inl hc
      · exact Or.inr hfresh
    · refine hsame u q hu j hlt ?_
      rintro ⟨rfl, rfl⟩
      rw [ht] at hu
      cases hu
      unfold Role.width at hi
      rw [if_pos hq] at hi
      omega
    · have := hdata ⟨r.height - 1, t, i⟩ (by rw [hpf, Function.update_self])
      simp only at this
      omega
    · have hpt : p ≠ t := by
        rintro rfl
        have := hdata r (hkeeps p r ht)
        omega
      have hpa := hp.aligned
      simp only [entryAddr]
      omega

variable {st' : PageState}

/-- The two outcomes of `ensureTable`: the table was there, or it is new, empty
and entered with the flags of this call. -/
theorem ensureTable (h : TableInv sites st roots own) (hpages : PageInv st sites)
    (hphys : Physical sites) {t i flags c : Nat} {r : Role} (ht : own t = some r)
    (hr : 1 < r.height) (hi : i < r.width) (hflags : PageFlags flags)
    (hstep : st.ensureTable t i flags = some (st', c)) :
    ∃ own', PageInv st' sites ∧ TableInv sites st' roots own' ∧ Grows sites st st' own own' ∧
      own' c = some ⟨r.height - 1, t, i⟩ ∧ (∀ d q, own' d = some q → own d = some q ∨ d = c) ∧
      ((st' = st ∧ own' = own ∧ ∃ f, PageFlags f ∧ entry st.mem t i = c + f) ∨
        (entry st.mem t i = 0 ∧ c ∉ st.allocated ∧ entry st'.mem t i = c + flags ∧
          ∀ j < 512, entry st'.mem c j = 0)) := by
  simp only [PageState.ensureTable] at hstep
  rcases h.entry_cases hpages hphys ht (by omega) hi with
    hzero | ⟨c', f, hf, he, hc, hone, -, -, hmask⟩
  · rw [hzero, if_pos (by decide)] at hstep
    obtain ⟨⟨st₁, frame⟩, halloc, heq⟩ := Option.map_eq_some_iff.mp hstep
    obtain ⟨hpages₁, hareas, hallocated, hfresh, hkeep⟩ := hpages.allocPageOrHalt halloc
    have hmem : frame ∈ st₁.allocated := by simp [hallocated]
    have htframe := h.frame hpages ht
    have hta := htframe.aligned
    have hfa := hpages₁.page_aligned hmem
    have hflt := hpages₁.page_lt hphys hmem
    have hi' := Nat.lt_of_lt_of_le hi r.width_le
    have hne : t ≠ frame := h.ne_fresh hpages₁ hmem hfresh ht
    obtain ⟨hor, -, -, -, hmask⟩ := word_fields hfa hflt hflags
    have hsmall := hflags.1
    have hentry : ∀ m, entry (setEntry m t i (frame + flags)) t i = frame + flags :=
      fun m => entry_setEntry (by omega)
    simp only [hor, hentry, hmask] at heq
    cases heq
    have hother : ∀ p, Frame sites p → (1 < r.height → p ≠ c) → ∀ x, p ≤ x → x < p + 0x1000 →
        x < entryAddr t i ∨ entryAddr t i + 8 ≤ x →
        setEntry (st₁.mem.memset c 0 0x1000) t i (c + flags) x = st.mem x := by
      intro p hp hpc x hle hlt hout
      have hpa := hp.aligned
      have hpc := hpc hr
      rw [setEntry_outside hout, ByteMemory.memset_outside _ (by omega), hkeep p hp x hle hlt]
    have hclear : ∀ j < 512, entry (setEntry (st₁.mem.memset c 0 0x1000) t i (c + flags)) c j = 0 := by
      intro j hj
      rw [entry_apart (fun x hx => setEntry_outside hx) hta hfa hi' hj (fun hc => hne hc.1.symm)]
      exact ByteMemory.load_zero fun x hle hlt =>
        ByteMemory.memset_inside _ (by simp only [entryAddr] at hle hlt; omega)
    obtain ⟨htables, hgrows⟩ := h.attach hpages ht (by omega) hi hzero hflags hpages₁
      hareas hallocated hfresh (hentry _) hother fun _ => hclear
    refine ⟨_, hpages₁.of_pages fun x hx => ?_, htables, hgrows, by simp, fun d q hd => ?_,
      Or.inr ⟨hzero, hfresh, hentry _, hclear⟩⟩
    · have hout := hx t htframe
      have hout' := hx c (hpages₁.frame hmem)
      rw [setEntry_outside (by simp only [entryAddr]; omega),
        ByteMemory.memset_outside _ (by omega)]
    · by_cases hdc : d = c
      · exact Or.inr hdc
      · left
        simpa [Function.update, hdc] using hd
  · rw [hone, if_neg (by decide), hmask] at hstep
    cases hstep
    exact ⟨own, hpages, h, Grows.refl st own, hc, fun _ _ hd => Or.inl hd,
      Or.inl ⟨rfl, rfl, f, hf, he⟩⟩

/-- The two outcomes of `ensurePage`. -/
theorem ensurePage (h : TableInv sites st roots own) (hpages : PageInv st sites)
    (hphys : Physical sites) {t i flags : Nat} {r : Role} (ht : own t = some r)
    (hr : r.height = 1) (hi : i < r.width) (hflags : PageFlags flags)
    (hstep : st.ensurePage t i flags = some st') :
    ∃ own' c, PageInv st' sites ∧ TableInv sites st' roots own' ∧ Grows sites st st' own own' ∧
      own' c = some ⟨0, t, i⟩ ∧ (∀ d q, own' d = some q → own d = some q ∨ d = c) ∧
      ((st' = st ∧ own' = own ∧ ∃ f, PageFlags f ∧ entry st.mem t i = c + f) ∨
        (entry st.mem t i = 0 ∧ c ∉ st.allocated ∧ entry st'.mem t i = c + flags)) := by
  simp only [PageState.ensurePage] at hstep
  rcases h.entry_cases hpages hphys ht (by omega) hi with
    hzero | ⟨c', f, hf, he, hc, hone, -, -, -⟩
  · rw [hzero, if_pos (by decide)] at hstep
    obtain ⟨⟨st₁, frame⟩, halloc, heq⟩ := Option.map_eq_some_iff.mp hstep
    obtain ⟨hpages₁, hareas, hallocated, hfresh, hkeep⟩ := hpages.allocPageOrHalt halloc
    have hmem : frame ∈ st₁.allocated := by simp [hallocated]
    have hflt := hpages₁.page_lt hphys hmem
    have hi' := Nat.lt_of_lt_of_le hi r.width_le
    obtain ⟨hor, -⟩ := word_fields (hpages₁.page_aligned hmem) hflt hflags
    have hsmall := hflags.1
    have hentry : entry (setEntry st₁.mem t i (frame + flags)) t i = frame + flags :=
      entry_setEntry (by omega)
    rw [hor] at heq
    cases heq
    obtain ⟨htables, hgrows⟩ := h.attach hpages ht (by omega) hi hzero hflags hpages₁
      hareas hallocated hfresh hentry
      (fun p hp _ x hle hlt hout => by rw [setEntry_outside hout, hkeep p hp x hle hlt])
      (fun hlt => absurd hlt (by omega))
    refine ⟨_, frame, hpages₁.of_pages fun x hx => ?_, htables, hgrows, by simp [hr],
      fun d q hd => ?_, Or.inr ⟨hzero, hfresh, hentry⟩⟩
    · have hout := hx t (h.frame hpages ht)
      exact setEntry_outside (by simp only [entryAddr]; omega)
    · by_cases hdf : d = frame
      · exact Or.inr hdf
      · left
        simpa [Function.update, hdf] using hd
  · rw [hone, if_neg (by decide)] at hstep
    cases hstep
    rw [hr] at hc
    exact ⟨own, c', hpages, h, Grows.refl st own, hc, fun _ _ hd => Or.inl hd,
      Or.inl ⟨rfl, rfl, f, hf, he⟩⟩

end TableInv

namespace Alike

variable {st st' twin : PageState} {sites : List Site} {roots before : List Nat}
  {own own' : Nat → Option Role}

theorem ensureTable (hlike : Alike sites before own st twin) (h : TableInv sites st roots own)
    (hpages : PageInv st sites) {t i flags c : Nat} {r q : Role} (ht : own t = some r)
    (hr : 0 < r.height) (hi : i < 512) (hstep : st.ensureTable t i flags = some (st', c))
    (h' : TableInv sites st' roots own') (hc : own' c = some q) (hq : q.height < 4)
    (hnew : ∀ d q, own' d = some q → own d = some q ∨ d = c)
    (hcase : (st' = st ∧ own' = own) ∨ (entry st.mem t i = 0 ∧ c ∉ st.allocated)) :
    ∃ twin', twin.ensureTable t i flags = some (twin', c) ∧ Alike sites before own' st' twin' := by
  have hsame := hlike.entry_eq h hpages ht hr hi
  simp only [PageState.ensureTable] at hstep ⊢
  rw [hsame]
  by_cases habsent : entry st.mem t i &&& 1 = 0
  · rw [if_pos habsent] at hstep ⊢
    obtain ⟨⟨st₁, frame⟩, halloc, heq⟩ := Option.map_eq_some_iff.mp hstep
    obtain ⟨hst', hcentry⟩ := Prod.mk.inj heq
    obtain ⟨-, -, hallocated, -⟩ := hpages.allocPageOrHalt halloc
    obtain ⟨twin₁, halloc', hlike₁⟩ := hlike.allocPageOrHalt hpages halloc
    have hframe : c = frame := by
      have hmem := h'.allocated hc hq
      rw [← hst'] at hmem
      simp only [hallocated] at hmem
      rcases hcase with ⟨rfl, -⟩ | ⟨-, hfresh⟩
      · exfalso
        have hlength := congrArg (fun s => s.allocated.length) hst'
        simp only [hallocated, List.length_cons] at hlength
        omega
      · exact (List.mem_cons.mp hmem).resolve_right hfresh
    rw [halloc']
    have hmem : Set.EqOn (setEntry (st₁.mem.memset frame 0 0x1000) t i (frame ||| flags))
        (setEntry (twin₁.mem.memset frame 0 0x1000) t i (frame ||| flags))
        (outsidePages (hiddenPages sites before own')) :=
      ByteMemory.store_agree (ByteMemory.memset_agree hlike₁.mem fun x hx => by
        have hx := outside_grows hnew hx
        rwa [hframe] at hx)
    have hentry : entry (setEntry (twin₁.mem.memset frame 0 0x1000) t i (frame ||| flags)) t i =
        entry (setEntry (st₁.mem.memset frame 0 0x1000) t i (frame ||| flags)) t i := by
      have hmem' : Set.EqOn (setEntry (st₁.mem.memset frame 0 0x1000) t i (frame ||| flags))
          (setEntry (twin₁.mem.memset frame 0 0x1000) t i (frame ||| flags))
          (outsidePages (hiddenPages sites before own)) :=
        ByteMemory.store_agree (ByteMemory.memset_agree hlike₁.mem fun x hx => Or.inl hx)
      refine ByteMemory.load_agree hmem' fun x hle hlt => ?_
      simp only [entryAddr] at hle hlt
      exact table_outside h hpages ht hr (by omega) (by omega)
    simp only [Option.map_some, hentry, hcentry]
    refine ⟨_, rfl, ?_⟩
    rw [← hst']
    exact ⟨hlike₁.areas, hlike₁.allocated, hmem⟩
  · rw [if_neg habsent] at hstep ⊢
    obtain ⟨rfl, hc'⟩ := Prod.mk.inj (Option.some.inj hstep)
    refine ⟨twin, by rw [hc'], ?_⟩
    rcases hcase with ⟨-, rfl⟩ | ⟨hzero, -⟩
    · exact hlike
    · simp [hzero] at habsent

theorem ensurePage (hlike : Alike sites before own st twin) (h : TableInv sites st roots own)
    (hpages : PageInv st sites) {t i flags c : Nat} {r q : Role} (ht : own t = some r)
    (hr : 0 < r.height) (hi : i < 512) (hstep : st.ensurePage t i flags = some st')
    (hc : own' c = some q) (hq : q.height = 0)
    (hnew : ∀ d q, own' d = some q → own d = some q ∨ d = c) :
    ∃ twin', twin.ensurePage t i flags = some twin' ∧ Alike sites before own' st' twin' := by
  have hsame := hlike.entry_eq h hpages ht hr hi
  have hsubset : outsidePages (hiddenPages sites before own') ⊆
      outsidePages (hiddenPages sites before own) := by
    intro x hx p hp
    refine hx p ⟨hp.1, hp.2.1, fun r hr => ?_⟩
    rcases hnew p r hr with hr | rfl
    · exact hp.2.2 r hr
    · rw [hc] at hr
      cases hr
      exact hq
  simp only [PageState.ensurePage] at hstep ⊢
  rw [hsame]
  by_cases habsent : entry st.mem t i &&& 1 = 0
  · rw [if_pos habsent] at hstep ⊢
    obtain ⟨⟨st₁, frame⟩, halloc, rfl⟩ := Option.map_eq_some_iff.mp hstep
    obtain ⟨twin₁, halloc', hlike₁⟩ := hlike.allocPageOrHalt hpages halloc
    rw [halloc']
    exact ⟨_, rfl, hlike₁.areas, hlike₁.allocated,
      ByteMemory.store_agree (hlike₁.mem.mono hsubset)⟩
  · rw [if_neg habsent] at hstep ⊢
    cases hstep
    exact ⟨twin, rfl, hlike.areas, hlike.allocated, hlike.mem.mono hsubset⟩

end Alike

end BayosKernel
