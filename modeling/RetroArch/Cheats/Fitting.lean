/- When a search is exact: every item lies in one region, and all are counted. -/

import RetroArch.Cheats.Exactness

namespace RetroArch.Cheats

open Library.Memory Library.Sweeping

variable {b n : ℕ} {regions : List Region} {bigEndian : Bool}

theorem length_itemsOf_aligned (hb : b ≤ 5)
    (haligned : (cheatManagerSetupSearchMeta b).bytesPerItem ∣ n) :
    (itemsOf (cheatManagerSetupSearchMeta b) n).length = n * 8 / 2 ^ b := by
  have hpos := bytesPerItem_pos b
  have hbits := bits_of_item hb
  rw [length_itemsOf]
  set k := cheatManagerSetupSearchMeta b
  obtain ⟨c, rfl⟩ := haligned
  have hcount : (k.bytesPerItem * c + k.bytesPerItem - 1) / k.bytesPerItem = c := by
    have hassoc : k.bytesPerItem * c + k.bytesPerItem - 1 =
        k.bytesPerItem * c + (k.bytesPerItem - 1) := by omega
    rw [hassoc, Nat.mul_add_div hpos, Nat.div_eq_of_lt (Nat.sub_lt hpos one_pos), Nat.add_zero]
  have hall : k.bytesPerItem * c * 8 = c * (8 / k.bits) * 2 ^ b := by
    rw [Nat.mul_right_comm, hbits, Nat.mul_comm (8 / k.bits * 2 ^ b) c, Nat.mul_assoc]
  rw [hcount, hall, Nat.mul_div_cancel _ (Nat.two_pow_pos b)]

theorem filter_marked_full (hb : b ≤ 5) :
    (itemsOf (cheatManagerSetupSearchMeta b) n).filter
      (marked (cheatManagerSetupSearchMeta b) (List.replicate n 0xFF)) =
        itemsOf (cheatManagerSetupSearchMeta b) n := by
  rw [List.filter_eq_self]
  intro item hitem
  obtain ⟨-, hlt, hpart⟩ := (mem_itemsOf (bytesPerItem_pos b)).mp hitem
  have hget : (List.replicate n (0xFF : UInt8))[item.1]? = some 0xFF := by
    rw [List.getElem?_replicate, if_pos hlt]
  rw [marked_of_get hget]
  exact decide_eq_true (group_pos hb hpart)

/-- A new search over some memory that is below 4 GiB. -/
theorem initialize_spec (descriptors : List MemoryDescriptor) (systemRam : Region)
    (m : Snapshot) (s : CheatManager) (hregions : searchedRegions descriptors systemRam = regions)
    (hsome : regions ≠ []) (hn : totalLength regions = n) (hsmall : n < 2 ^ 32) :
    ∃ s', cheatManagerInitializeMemory descriptors systemRam true m s = some s' ∧
      Holds s' regions ∧ s'.totalMemorySize = n ∧ s'.searchBitSize = s.searchBitSize ∧
      s'.bigEndian = s.bigEndian ∧ s'.matchBuf = some (List.replicate n 0xFF) ∧
      s'.prevMemoryBuf = some (concat m regions) ∧
      s'.numMatches = n * 8 % 2 ^ 32 / 2 ^ s.searchBitSize := by
  obtain ⟨noted, hholds, htotal, hbits, hendian, -, hinit⟩ :=
    initialize_eq descriptors systemRam m s
  rw [hregions] at hholds htotal hinit
  rw [hn, Nat.mod_eq_of_lt hsmall] at htotal
  rw [hinit, if_neg hsome]
  unfold initializeSearch
  dsimp only
  rw [hholds.list, hholds.sizes, htotal,
    copyRegions_spec (by rw [List.length_replicate, hn, Nat.zero_add])
      (by rw [List.length_replicate]; exact hsmall), List.take_zero, List.nil_append]
  refine ⟨_, rfl, ⟨rfl, rfl⟩, rfl, hbits, hendian, rfl, rfl, ?_⟩
  change n * 8 % 2 ^ 32 / 2 ^ noted.searchBitSize = _
  rw [hbits]

theorem initialize_tracks (hb : b ≤ 5) (descriptors : List MemoryDescriptor)
    (systemRam : Region) (m : Snapshot) {s : CheatManager} (hbits : s.searchBitSize = b)
    (hregions : searchedRegions descriptors systemRam = regions) (hsome : regions ≠ [])
    (hn : totalLength regions = n) (hsmall : n < 2 ^ 29)
    (haligned : ∀ r ∈ regions, (cheatManagerSetupSearchMeta b).bytesPerItem ∣ r.len) :
    ∃ s', cheatManagerInitializeMemory descriptors systemRam true m s = some s' ∧
      Tracks b n regions s.bigEndian
        ⟨itemsOf (cheatManagerSetupSearchMeta b) n, concat m regions⟩ s' := by
  obtain ⟨s', hinit, hholds, htotal, hbits', hendian, hbuf, hprev, hcount⟩ :=
    initialize_spec descriptors systemRam m s hregions hsome hn (by omega)
  refine ⟨s', hinit, hsome, hholds, htotal, hbits'.trans hbits, hendian, ?_, ?_, ?_⟩
  · exact ⟨_, hbuf, List.length_replicate, filter_marked_full hb⟩
  · exact ⟨hprev, (length_concat m regions).trans hn⟩
  · rw [hcount, hbits, Nat.mod_eq_of_lt (by omega)]
    exact (length_itemsOf_aligned hb (hn ▸ dvd_totalLength haligned)).symm

theorem step_tracks (hb : b ≤ 5) (hn : totalLength regions = n) (hsmall : n < 2 ^ 29)
    (haligned : ∀ r ∈ regions, (cheatManagerSetupSearchMeta b).bytesPerItem ∣ r.len)
    {h : Hunt} {s : CheatManager} (ht : Tracks b n regions bigEndian h s) (op : Op) :
    ∃ s', step s op = some s' ∧ Tracks b n regions bigEndian
      (h.step (cheatManagerSetupSearchMeta b) bigEndian regions op) s' := by
  cases op with
  | search searchType o m =>
    exact cheatManagerSearch_tracks hb hn hsmall haligned ht searchType o m
  | delete target m => exact cheatManagerMatchAction_tracks hb hn hsmall haligned ht target m

theorem run_tracks (hb : b ≤ 5) (hn : totalLength regions = n) (hsmall : n < 2 ^ 29)
    (haligned : ∀ r ∈ regions, (cheatManagerSetupSearchMeta b).bytesPerItem ∣ r.len)
    (ops : List Op) {h : Hunt} {s : CheatManager} (ht : Tracks b n regions bigEndian h s) :
    ∃ s', ops.foldlM step s = some s' ∧ Tracks b n regions bigEndian
      (ops.foldl (Hunt.step (cheatManagerSetupSearchMeta b) bigEndian regions) h) s' := by
  induction ops generalizing h s with
  | nil => exact ⟨s, rfl, ht⟩
  | cons op ops ih =>
    obtain ⟨s₁, hstep, ht₁⟩ := step_tracks hb hn hsmall haligned ht op
    obtain ⟨s₂, hrest, ht₂⟩ := ih ht₁
    refine ⟨s₂, ?_, ht₂⟩
    rw [List.foldlM_cons, hstep]
    exact hrest

theorem Tracks.exact {h : Hunt} {s : CheatManager} (ht : Tracks b n regions bigEndian h s) :
    ExactAt (cheatManagerSetupSearchMeta b) n h s := by
  obtain ⟨buf, hbuf, -, hcandidates⟩ := ht.marks
  constructor
  · intro item hitem
    rw [hbuf, Option.getD_some, ← hcandidates, List.mem_filter]
    exact (and_iff_right hitem).symm
  · rw [hbuf, Option.getD_some, hcandidates]
    exact ht.count

theorem step_empty {s : CheatManager} (h : s.memoryBufList = []) (op : Op) :
    ∃ s', step s op = some s' ∧ s'.memoryBufList = [] ∧ s'.numMatches = s.numMatches := by
  cases op with
  | search searchType o m => exact ⟨_, if_pos h, h, rfl⟩
  | delete target m =>
    refine ⟨s, ?_, h, rfl⟩
    unfold step cheatManagerMatchAction
    dsimp only
    rw [if_pos h, ite_self]
    rfl

theorem run_empty (ops : List Op) {s : CheatManager} (h : s.memoryBufList = []) :
    ∃ s', ops.foldlM step s = some s' ∧ s'.numMatches = s.numMatches := by
  induction ops generalizing s with
  | nil => exact ⟨s, rfl, rfl⟩
  | cons op ops ih =>
    obtain ⟨s₁, hstep, hlist, hcount⟩ := step_empty h op
    obtain ⟨s₂, hrest, hcount₂⟩ := ih hlist
    refine ⟨s₂, ?_, hcount₂.trans hcount⟩
    rw [List.foldlM_cons, hstep]
    exact hrest

theorem exists_first_misaligned {d : ℕ} {regions : List Region}
    (h : ¬ ∀ r ∈ regions, d ∣ r.len) :
    ∃ before r after, regions = before ++ r :: after ∧ (∀ r ∈ before, d ∣ r.len) ∧
      ¬ d ∣ r.len := by
  induction regions with
  | nil => exact absurd (fun r hr => absurd hr List.not_mem_nil) h
  | cons r regions ih =>
    by_cases hr : d ∣ r.len
    · have hrest : ¬ ∀ r ∈ regions, d ∣ r.len := by
        intro hall
        apply h
        intro r' hr'
        rcases List.mem_cons.mp hr' with rfl | hr'
        · exact hr
        · exact hall r' hr'
      obtain ⟨before, r', after, rfl, hbefore, hr'⟩ := ih hrest
      refine ⟨r :: before, r', after, rfl, ?_, hr'⟩
      intro r'' hr''
      rcases List.mem_cons.mp hr'' with rfl | hr''
      · exact hr
      · exact hbefore r'' hr''
    · exact ⟨[], r, regions, rfl, fun r hr => absurd hr List.not_mem_nil, hr⟩

/-- A search over a region in which items do not end reads outside of it. -/
theorem cheatManagerSearch_misaligned {s : CheatManager} (hbits : s.searchBitSize = b)
    (hholds : Holds s regions) (htotal : s.totalMemorySize = n)
    (hn : totalLength regions = n) (hsmall : n < 2 ^ 32)
    (hmisaligned : ¬ ∀ r ∈ regions, (cheatManagerSetupSearchMeta b).bytesPerItem ∣ r.len)
    (searchType : CheatSearchType) (m : Snapshot) : cheatManagerSearch searchType m s = none := by
  have hpos := bytesPerItem_pos b
  set k := cheatManagerSetupSearchMeta b with hk
  obtain ⟨before, r, after, hregions, hbefore, hr⟩ := exists_first_misaligned hmisaligned
  obtain ⟨c, hc⟩ := dvd_totalLength hbefore
  set idx := k.bytesPerItem * (c + r.len / k.bytesPerItem) with hidx
  have hmod : 0 < r.len % k.bytesPerItem :=
    Nat.pos_of_ne_zero fun hzero => hr (Nat.dvd_of_mod_eq_zero hzero)
  have hless := Nat.mod_lt r.len hpos
  have hdiv := Nat.div_add_mod r.len k.bytesPerItem
  have hidxEq : idx = totalLength before + k.bytesPerItem * (r.len / k.bytesPerItem) := by
    rw [hidx, Nat.mul_add, hc]
  have hin : idx < n := by
    rw [← hn, hregions, totalLength_append, totalLength_cons]
    omega
  have hfail : ∀ w, searchItem s k searchType m w idx = none := by
    intro w
    obtain ⟨offset, curr', htranslate, hcurr⟩ := currValue_misaligned (m := m) hholds
      (hn.symm ▸ hsmall) hregions k.bytesPerItem idx (by omega) (by omega) (by omega)
      w.curr
    unfold searchItem
    rw [htranslate]
    dsimp only
    rw [hcurr]
    rfl
  have hmem : idx ∈ starts k n := (mem_starts hpos).mpr ⟨Nat.dvd_mul_right _ _, hin⟩
  have haddresses : addresses s k 0 = starts k n := by
    unfold addresses starts
    rw [htotal, Nat.sub_zero]
  have hsome : s.memoryBufList ≠ [] := by
    rw [hholds.list, hregions]
    exact List.append_ne_nil_of_right_ne_nil _ (List.cons_ne_nil _ _)
  have hmeta : cheatManagerSetupSearchMeta s.searchBitSize = k := by rw [hbits]
  unfold cheatManagerSearch
  rw [if_neg hsome, hmeta]
  dsimp only
  rcases s.matchBuf with _ | buf
  · rfl
  · rw [Option.bind_some, haddresses, foldlM_none hmem hfail]
    rfl

theorem count_of_large (hb : b ≤ 5) (hlarge : 2 ^ 29 ≤ n) (x : ℕ) :
    x % 2 ^ 32 / 2 ^ b < (itemsOf (cheatManagerSetupSearchMeta b) n).length := by
  have hpos := bytesPerItem_pos b
  have hfew : x % 2 ^ 32 / 2 ^ b < 2 ^ 32 / 2 ^ b := by
    apply Nat.div_lt_of_lt_mul
    rw [Nat.mul_div_cancel' (Nat.pow_dvd_pow 2 (by omega))]
    exact Nat.mod_lt _ (by decide)
  have hmany : 2 ^ 32 / 2 ^ b ≤ (itemsOf (cheatManagerSetupSearchMeta b) n).length := by
    have hall : 2 ^ 32 / 2 ^ b = 2 ^ 29 / (cheatManagerSetupSearchMeta b).bytesPerItem *
        (8 / (cheatManagerSetupSearchMeta b).bits) := by
      interval_cases b <;> rfl
    rw [hall, length_itemsOf]
    exact Nat.mul_le_mul_right _ (Nat.div_le_div_right (by omega))
  omega

/-- Where the items fit, every run is exact. -/
theorem exact_of_fits {descriptors : List MemoryDescriptor} {systemRam : Region}
    {s : CheatManager} (hb : s.searchBitSize ≤ 5)
    (h : Fits (cheatManagerSetupSearchMeta s.searchBitSize)
      (searchedRegions descriptors systemRam) s) (m : Snapshot) (ops : List Op) :
    ∃ s', runSearch descriptors systemRam m ops s = some s' ∧
      ExactAt (cheatManagerSetupSearchMeta s.searchBitSize)
        (totalLength (searchedRegions descriptors systemRam))
        (runHunt (cheatManagerSetupSearchMeta s.searchBitSize) s.bigEndian
          (searchedRegions descriptors systemRam) m ops) s' := by
  unfold runSearch
  by_cases hnone : searchedRegions descriptors systemRam = []
  · obtain ⟨noted, hholds, -, -, -, hmatches, hinit⟩ :=
      initialize_eq descriptors systemRam m s
    rw [hinit, if_pos hnone, Option.bind_some]
    obtain ⟨s', hrun, hcount⟩ := run_empty ops (hholds.list.trans hnone)
    refine ⟨s', hrun, ?_⟩
    have hitems : itemsOf (cheatManagerSetupSearchMeta s.searchBitSize)
        (totalLength (searchedRegions descriptors systemRam)) = [] := by
      rw [hnone, ← List.length_eq_zero_iff]
      exact Nat.le_zero.mp (length_itemsOf_le (n := 0) (bytesPerItem_pos _))
    constructor
    · intro item hitem
      rw [hitems] at hitem
      exact absurd hitem List.not_mem_nil
    · rw [hitems, hcount, hmatches]
      exact h.empty hnone
  · obtain ⟨s₁, hinit, htracks⟩ := initialize_tracks hb descriptors systemRam m rfl rfl hnone rfl
      h.small h.aligned
    rw [hinit, Option.bind_some]
    obtain ⟨s', hrun, htracks'⟩ := run_tracks hb rfl h.small h.aligned ops htracks
    exact ⟨s', hrun, htracks'.exact⟩

/-- A search is exact, whatever is compared and deleted and however the memory changes, just where
the items fit. -/
theorem search_exact_iff (descriptors : List MemoryDescriptor) (systemRam : Region)
    (s : CheatManager) (hb : s.searchBitSize ≤ 5) :
    (∀ m ops, ∃ s', runSearch descriptors systemRam m ops s = some s' ∧
      ExactAt (cheatManagerSetupSearchMeta s.searchBitSize)
        (totalLength (searchedRegions descriptors systemRam))
        (runHunt (cheatManagerSetupSearchMeta s.searchBitSize) s.bigEndian
          (searchedRegions descriptors systemRam) m ops) s') ↔
      Fits (cheatManagerSetupSearchMeta s.searchBitSize) (searchedRegions descriptors systemRam)
        s := by
  refine ⟨?_, fun h m ops => exact_of_fits hb h m ops⟩
  intro h
  set regions := searchedRegions descriptors systemRam with hregions
  set k := cheatManagerSetupSearchMeta s.searchBitSize with hk
  obtain ⟨s₀, hrun₀, hexact₀⟩ := h (fun _ _ => 0) []
  have hinit₀ : cheatManagerInitializeMemory descriptors systemRam true (fun _ _ => 0) s =
      some s₀ := by
    rw [← hrun₀]
    exact (Option.bind_fun_some _).symm
  -- at the start all items are candidates, so all are counted
  have hall : s₀.numMatches = (itemsOf k (totalLength regions)).length := by
    rw [hexact₀.count]
    congr 1
    rw [List.filter_eq_self]
    intro item hitem
    exact (hexact₀.marks item hitem).mpr hitem
  obtain ⟨noted, -, -, hbits, -, hmatches, hinit⟩ :=
    initialize_eq descriptors systemRam (fun _ _ => 0) s
  rw [hinit₀] at hinit
  have hsmall : totalLength regions < 2 ^ 29 := by
    by_contra hlarge
    have hsome : regions ≠ [] := by
      intro hnone
      rw [hnone] at hlarge
      exact hlarge (by decide)
    rw [if_neg hsome] at hinit
    obtain ⟨s₁, hs₁, rfl⟩ := Option.map_eq_some_iff.mp hinit.symm
    obtain ⟨prev, -, rfl⟩ := Option.map_eq_some_iff.mp hs₁
    have hfew := count_of_large hb (Nat.le_of_not_lt hlarge) (noted.totalMemorySize * 8)
    rw [← hk, ← hall] at hfew
    change noted.totalMemorySize * 8 % 2 ^ 32 / 2 ^ s.searchBitSize <
      noted.totalMemorySize * 8 % 2 ^ 32 / 2 ^ noted.searchBitSize at hfew
    rw [hbits] at hfew
    exact lt_irrefl _ hfew
  refine ⟨?_, hsmall, ?_⟩
  · by_contra hmisaligned
    have hsome : regions ≠ [] := by
      intro hnone
      apply hmisaligned
      rw [hnone]
      exact fun r hr => absurd hr List.not_mem_nil
    obtain ⟨s₁, hinit₁, hholds₁, htotal₁, hbits₁, -⟩ := initialize_spec descriptors systemRam
      (fun _ _ => 0) s hregions.symm hsome rfl (by omega)
    obtain ⟨s₂, hrun₂, -⟩ := h (fun _ _ => 0) [.search .eq ⟨0, 0, 0⟩ fun _ _ => 0]
    unfold runSearch at hrun₂
    rw [hinit₁, Option.bind_some, List.foldlM_cons] at hrun₂
    have hfail : step s₁ (.search .eq ⟨0, 0, 0⟩ fun _ _ => 0) = none := by
      apply cheatManagerSearch_misaligned (b := s.searchBitSize) _ _ _ rfl _ hmisaligned
      · exact hbits₁
      · exact ⟨hholds₁.list, hholds₁.sizes⟩
      · exact htotal₁
      · omega
    rw [hfail] at hrun₂
    exact nomatch hrun₂
  · intro hnone
    rw [if_pos hnone] at hinit
    obtain rfl := Option.some.inj hinit
    rw [← hmatches, hall, hnone, ← Nat.le_zero]
    exact length_itemsOf_le (n := 0) (bytesPerItem_pos _)

/-- A manager whose searches are for values of `2 ^ b` bits. -/
def freshManager (b : ℕ) (bigEndian : Bool) : CheatManager where
  totalMemorySize := 0
  currMemoryBuf := none
  prevMemoryBuf := none
  matchBuf := none
  memoryBufList := []
  memorySizeList := []
  searchBitSize := b
  searchExactValue := 0
  searchEqplusValue := 0
  searchEqminusValue := 0
  numMatches := 0
  bigEndian := bigEndian
  memoryInitialized := false
  memorySearchInitialized := false

/-- Two regions of 8 and 4 bytes fit values of 32 bits. -/
theorem words_exact : ∃ s', runSearch [⟨true, some ⟨0, 8⟩⟩, ⟨true, some ⟨1, 4⟩⟩] ⟨0, 0⟩
      (fun _ _ => 0) [.search .gt ⟨0, 0, 0⟩ fun _ j => j.toUInt8, .delete 1 fun _ _ => 0]
      (freshManager 5 true) = some s' ∧
    ExactAt ⟨4, 0xFFFFFFFF, 8⟩ 12
      (runHunt ⟨4, 0xFFFFFFFF, 8⟩ true [⟨0, 8⟩, ⟨1, 4⟩] (fun _ _ => 0)
        [.search .gt ⟨0, 0, 0⟩ fun _ j => j.toUInt8, .delete 1 fun _ _ => 0]) s' :=
  (search_exact_iff [⟨true, some ⟨0, 8⟩⟩, ⟨true, some ⟨1, 4⟩⟩] ⟨0, 0⟩ (freshManager 5 true)
    (by decide)).mpr
      ⟨by decide, by decide, fun _ => rfl⟩ (fun _ _ => 0)
      [.search .gt ⟨0, 0, 0⟩ fun _ j => j.toUInt8, .delete 1 fun _ _ => 0]

/-- In three bytes of memory a search for values of 16 bits reads the fourth. -/
theorem odd_region_overread :
    ¬ ∃ s', runSearch [] ⟨0, 3⟩ (fun _ _ => 0) [.search .eq ⟨0, 0, 0⟩ fun _ _ => 0]
        (freshManager 4 false) = some s' ∧
      ExactAt ⟨2, 0xFFFF, 8⟩ 3
        (runHunt ⟨2, 0xFFFF, 8⟩ false [⟨0, 3⟩] (fun _ _ => 0)
          [.search .eq ⟨0, 0, 0⟩ fun _ _ => 0]) s' := by
  rintro ⟨s', hrun, -⟩
  have hnone : (runSearch [] ⟨0, 3⟩ (fun _ _ => 0) [.search .eq ⟨0, 0, 0⟩ fun _ _ => 0]
      (freshManager 4 false)).isNone = true := by
    decide
  rw [hrun] at hnone
  exact nomatch hnone

end RetroArch.Cheats
