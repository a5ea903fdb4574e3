/- When the cheats do to the memory what they are to do. -/

import RetroArch.Cheats.Stores

namespace RetroArch.Cheats

variable {m : Snapshot} {s : CheatManager} {regions : List Region} {cheat : ItemCheat}
  {k : SearchMeta} {p : Region × ℕ}

section Loop

/-- What the value wraps at from one repetition to the next. -/
def SearchMeta.modulus (k : SearchMeta) (σ : ℕ) : ℕ :=
  if k.bits < 8 then clearing (σ + k.bits - 1) else k.mask.toNat

/-- `idx` before the `n`-th repetition. -/
def ItemCheat.index (cheat : ItemCheat) (k : SearchMeta) (size σ n : ℕ) : ℕ :=
  if n = 0 then cheat.address.toNat else (cheat.item k size σ n).1

/-- The repetitions of a cheat from an item at `σ`, where the code starts with `first` and the
cheat gives the item the value `given`. -/
structure ItemCheat.Fits (cheat : ItemCheat) (regions : List Region) (k : SearchMeta) (σ : ℕ)
    (first given : UInt32) : Prop where
  count : cheat.repeatCount.toNat ≠ 2 ^ 32 - 1
  inside : ∀ n < cheat.repeatCount.toNat,
    (itemPlace regions k.bytesPerItem (cheat.item k (totalLength regions) σ n).1).isSome
  still : k.bits < 8 → cheat.repeatCount ≠ 0 → cheat.repeatAddToAddress = 0
  address : ∀ n, n + 1 < cheat.repeatCount.toNat →
    (cheat.index k (totalLength regions) σ n +
      cheat.repeatAddToAddress.toNat * k.bytesPerItem) % 2 ^ 32 % totalLength regions =
    (cheat.index k (totalLength regions) σ n +
      cheat.repeatAddToAddress.toNat * k.bytesPerItem) % totalLength regions
  value : ∀ n, 0 < n → n < cheat.repeatCount.toNat →
    (first.toNat + n * cheat.repeatAddToValue.toNat) % 2 ^ 32 < k.modulus σ
  bits : ∀ n < cheat.repeatCount.toNat, ∀ j < k.width,
    (first.toNat + n * cheat.repeatAddToValue.toNat).testBit (σ + j) =
      (given.toNat + n * cheat.repeatAddToValue.toNat).testBit j

/-- The loop before its `n`-th repetition. -/
structure Before (cheat : ItemCheat) (regions : List Region) (k : SearchMeta)
    (σ : ℕ) (first : UInt32) (n : ℕ) (t : Repetition) : Prop where
  idx : t.idx = cheat.index k (totalLength regions) σ n
  place : ∀ p, itemPlace regions k.bytesPerItem (cheat.item k (totalLength regions) σ n).1 =
    some p → At p t.idx t.offset t.curr ∧ p.2 + k.bytesPerItem ≤ p.1.len
  value : t.valueToSet = (first.toNat + n * cheat.repeatAddToValue.toNat) % 2 ^ 32
  addressMask : k.bits < 8 → t.addressMask = cheat.addressMask.toNat
  mask : ¬k.bits < 8 → t.mask = k.mask.toNat

variable {σ : ℕ} {first given : UInt32}

theorem ItemCheat.Fits.stays (hfits : cheat.Fits regions k σ first given) (hk : k.Small)
    (hcount : 0 < cheat.repeatCount.toNat) : cheat.repeatAddToAddress = 0 := by
  apply hfits.still hk.narrow
  intro hzero
  rw [hzero] at hcount
  exact Nat.lt_irrefl 0 hcount

theorem item_wide (hk : k.Wide) (size n : ℕ) : cheat.item k size 0 n =
    ((cheat.address.toNat + n * cheat.repeatAddToAddress.toNat * k.bytesPerItem) % size, 0) := by
  unfold ItemCheat.item
  simp only [hk.bits]
  norm_num [Nat.mod_one]

theorem item_small (hk : k.Small) (hshift : k.shift cheat.addressMask = some σ)
    (hstill : cheat.repeatAddToAddress = 0) (size n : ℕ) :
    cheat.item k size σ n = (cheat.address.toNat % size, σ) := by
  obtain ⟨hle, ⟨i, rfl⟩, -⟩ := shift_small hk hshift
  unfold ItemCheat.item
  dsimp only
  have hzero : (0 : UInt32).toNat = 0 := rfl
  rw [hstill, hzero, Nat.mul_zero, Nat.zero_mul, Nat.add_zero]
  have hwithin : i < 8 / k.bits := by
    rcases hk.bits with hb | hb | hb <;> rw [hb] at hle ⊢ <;> omega
  rw [Nat.mul_div_cancel_left i hk.pos, Nat.mul_comm _ (8 / k.bits),
    Nat.mul_add_div (by omega), Nat.mul_add_mod, Nat.div_eq_of_lt hwithin, Nat.add_zero,
    Nat.mod_eq_of_lt hwithin, Nat.mul_comm]

theorem index_mod (hk : k.Wide ∨ k.Small) (hshift : k.shift cheat.addressMask = some σ)
    (hfits : cheat.Fits regions k σ first given) {n : ℕ} (hn : n < cheat.repeatCount.toNat) :
    cheat.index k (totalLength regions) σ n % totalLength regions =
      (cheat.item k (totalLength regions) σ n).1 := by
  unfold ItemCheat.index
  split_ifs with hzero
  · rw [hzero]
    rcases hk with hk | hk
    · obtain rfl := shift_wide hk hshift
      rw [item_wide hk, Nat.zero_mul, Nat.zero_mul, Nat.add_zero]
    · rw [item_small hk hshift (hfits.stays hk (Nat.zero_lt_of_lt hn))]
  · exact Nat.mod_mod _ _

theorem storeItem_spec (hk : k.Wide ∨ k.Small) (hshift : k.shift cheat.addressMask = some σ)
    (hfits : cheat.Fits regions k σ first given) {n : ℕ} (hn : n < cheat.repeatCount.toNat)
    {t : Repetition} (ht : Before cheat regions k σ first n t) :
    ∃ p, itemPlace regions k.bytesPerItem (cheat.item k (totalLength regions) σ n).1 = some p ∧
      storeItem cheat k t = some { t with
        memory := writtenItem t.memory k cheat.bigEndian p
          (cheat.item k (totalLength regions) σ n).2
          ((given.toNat + n * cheat.repeatAddToValue.toNat) % 2 ^ k.width)
        mask := k.modulus σ } := by
  obtain ⟨p, hp⟩ := Option.isSome_iff_exists.mp (hfits.inside n hn)
  obtain ⟨hat, hlen⟩ := ht.place p hp
  refine ⟨p, hp, ?_⟩
  have hgiven := hfits.bits n hn
  rcases hk with hk | hk
  · obtain rfl := shift_wide hk hshift
    have hbits : ∀ j < k.width, t.valueToSet.testBit j =
        (given.toNat + n * cheat.repeatAddToValue.toNat).testBit j := by
      intro j hj
      have hbit := hgiven j hj
      rw [Nat.zero_add] at hbit
      rw [ht.value, Nat.testBit_mod_two_pow, decide_eq_true (lt_of_lt_of_le hj hk.width_le),
        Bool.true_and, hbit]
    have hmask : t.mask = k.modulus 0 := by
      unfold SearchMeta.modulus
      rw [ht.mask hk.not_narrow, if_neg hk.not_narrow]
    rw [storeItem_wide hk hat hlen _ hbits, ← hmask]
  · have hstill := hfits.stays hk (Nat.zero_lt_of_lt hn)
    obtain ⟨hend, -, -⟩ := shift_small hk hshift
    have hbits : ∀ j < k.width, t.valueToSet.testBit (σ + j) =
        (given.toNat + n * cheat.repeatAddToValue.toNat).testBit j := by
      intro j hj
      have hin : σ + j < 32 := by
        rw [hk.width_eq] at hj
        omega
      rw [ht.value, Nat.testBit_mod_two_pow, decide_eq_true hin, Bool.true_and, hgiven j hj]
    have hmodulus : k.modulus σ = clearing (σ + k.bits - 1) := if_pos hk.narrow
    rw [storeItem_small hk hshift hat hlen (ht.addressMask hk.narrow) hbits,
      item_small hk hshift hstill, hmodulus]

/-- After its store a repetition goes on to the next item and value. -/
theorem moveOn_spec (hholds : Holds s regions) (hsmall : totalLength regions < 2 ^ 32)
    (htotal : s.totalMemorySize = totalLength regions) (hpos : 0 < totalLength regions)
    (hk : k.Wide ∨ k.Small) (hshift : k.shift cheat.addressMask = some σ)
    (hfits : cheat.Fits regions k σ first given) {n : ℕ} (hn : n < cheat.repeatCount.toNat)
    {t : Repetition} (ht : Before cheat regions k σ first n t) (memory : Snapshot) :
    ∃ u, moveOn s cheat k { t with memory := memory, mask := k.modulus σ } = some u ∧
      u.memory = memory ∧ (n + 1 < cheat.repeatCount.toNat →
        Before cheat regions k σ first (n + 1) u) := by
  have hsize : s.totalMemorySize ≠ 0 := by omega
  -- the value wraps nowhere
  have hvalue : n + 1 < cheat.repeatCount.toNat →
      (if k.modulus σ ≠ 0 then
        (t.valueToSet + cheat.repeatAddToValue.toNat) % 2 ^ 32 % k.modulus σ
      else (t.valueToSet + cheat.repeatAddToValue.toNat) % 2 ^ 32) =
        (first.toNat + (n + 1) * cheat.repeatAddToValue.toNat) % 2 ^ 32 := by
    intro hnext
    have hlt := hfits.value (n + 1) (Nat.succ_pos n) hnext
    rw [ht.value, Nat.mod_add_mod, Nat.add_assoc, ← Nat.succ_mul, if_pos (by omega)]
    exact Nat.mod_eq_of_lt hlt
  -- the item of the next address is looked for where it lies
  have hplace : ∀ {idx : ℕ}, idx = (cheat.item k (totalLength regions) σ (n + 1)).1 → ∀ p,
      itemPlace regions k.bytesPerItem (cheat.item k (totalLength regions) σ (n + 1)).1 = some p →
      At p idx (translateAddress s idx t.curr).1 (translateAddress s idx t.curr).2 ∧
        p.2 + k.bytesPerItem ≤ p.1.len := by
    rintro idx rfl p hp
    exact itemPlace_spec hholds hsmall hp t.curr
  have hindex := index_mod hk hshift hfits hn
  unfold moveOn
  dsimp only
  rcases hk with hk | hk
  · obtain rfl := shift_wide hk hshift
    have hwide := hk.not_narrow
    rw [if_neg hwide, Option.bind_some, if_neg hsize]
    refine ⟨_, rfl, rfl, fun hnext => ?_⟩
    have hidx : (t.idx + cheat.repeatAddToAddress.toNat * k.bytesPerItem) % 2 ^ 32 %
        s.totalMemorySize = (cheat.item k (totalLength regions) 0 (n + 1)).1 := by
      rw [ht.idx, htotal, hfits.address n hnext, ← Nat.mod_add_mod, hindex, item_wide hk,
        item_wide hk]
      dsimp only
      rw [Nat.mod_add_mod, Nat.succ_mul, Nat.add_mul, Nat.add_assoc]
    refine ⟨hidx, hplace hidx, hvalue hnext, fun h => absurd h hwide, fun _ => ?_⟩
    unfold SearchMeta.modulus
    rw [if_neg hwide]
  · have hnarrow := hk.narrow
    have hstill := hfits.stays hk (Nat.zero_lt_of_lt hn)
    have hzero : cheat.repeatAddToAddress.toNat = 0 := by rw [hstill]; rfl
    rw [if_pos hnarrow, hzero, List.range_zero, List.foldlM_nil]
    simp only [Option.pure_def, Option.bind_some, if_neg hsize]
    refine ⟨_, rfl, rfl, fun hnext => ?_⟩
    have hidx : t.idx % s.totalMemorySize =
        (cheat.item k (totalLength regions) σ (n + 1)).1 := by
      rw [ht.idx, htotal, hindex, item_small hk hshift hstill, item_small hk hshift hstill]
    exact ⟨hidx, hplace hidx, hvalue hnext, ht.addressMask, fun h => absurd hnarrow h⟩

/-- The memory that the first `n` repetitions are to leave. -/
def intendedItems (regions : List Region) (cheat : ItemCheat) (k : SearchMeta) (σ : ℕ)
    (given : UInt32) (n : ℕ) (m : Snapshot) : Option Snapshot :=
  (List.range n).foldlM (fun m n =>
    (itemPlace regions k.bytesPerItem (cheat.item k (totalLength regions) σ n).1).map fun p =>
      writtenItem m k cheat.bigEndian p (cheat.item k (totalLength regions) σ n).2
        ((given.toNat + n * cheat.repeatAddToValue.toNat) % 2 ^ k.width)) m

theorem repetitions_spec (hholds : Holds s regions) (hsmall : totalLength regions < 2 ^ 32)
    (htotal : s.totalMemorySize = totalLength regions) (hpos : 0 < totalLength regions)
    (hk : k.Wide ∨ k.Small) (hshift : k.shift cheat.addressMask = some σ)
    (hfits : cheat.Fits regions k σ first given) {t : Repetition}
    (ht : 0 < cheat.repeatCount.toNat → Before cheat regions k σ first 0 t) {n : ℕ}
    (hn : n ≤ cheat.repeatCount.toNat) :
    ∃ u, (List.range n).foldlM (fun t _ => (storeItem cheat k t).bind (moveOn s cheat k)) t =
        some u ∧ intendedItems regions cheat k σ given n t.memory = some u.memory ∧
      (n < cheat.repeatCount.toNat → Before cheat regions k σ first n u) := by
  induction n with
  | zero => exact ⟨t, rfl, rfl, ht⟩
  | succ n ih =>
    obtain ⟨u, hrun, hintended, hbefore⟩ := ih (Nat.le_of_succ_le hn)
    obtain ⟨p, hp, hstored⟩ :=
      storeItem_spec hk hshift hfits hn (hbefore hn)
    obtain ⟨v, hmoved, hmemory, hnext⟩ := moveOn_spec hholds hsmall htotal hpos hk hshift hfits hn
      (hbefore hn)
      (writtenItem u.memory k cheat.bigEndian p (cheat.item k (totalLength regions) σ n).2
        ((given.toNat + n * cheat.repeatAddToValue.toNat) % 2 ^ k.width))
    refine ⟨v, ?_, ?_, hnext⟩
    · rw [List.range_succ, List.foldlM_append, hrun]
      simp only [Option.bind_eq_bind, Option.bind_some, List.foldlM_cons, List.foldlM_nil]
      rw [hstored, Option.bind_some, hmoved]
      rfl
    · unfold intendedItems at hintended ⊢
      rw [List.range_succ, List.foldlM_append, hintended]
      simp only [Option.bind_eq_bind, Option.bind_some, List.foldlM_cons, List.foldlM_nil, hp,
        Option.map_some, hmemory]
      rfl

end Loop

section Run

/-- A cheat whose items lie in the regions, and which does not meet the places at which values,
bits and addresses are taken wrongly. -/
structure ItemCheat.Proper (cheat : ItemCheat) (s : CheatManager) (regions : List Region)
    (m : Snapshot) : Prop where
  size : cheat.memorySearchSize ≤ 5
  reached : Reached s regions (cheatManagerSetupSearchMeta cheat.memorySearchSize).bytesPerItem
    cheat.address.toNat
  lies : ∃ p, itemPlace regions (cheatManagerSetupSearchMeta cheat.memorySearchSize).bytesPerItem
      (cheat.address.toNat % totalLength regions) = some p ∧
    (cheat.sets = true → ∃ σ first given,
      (cheatManagerSetupSearchMeta cheat.memorySearchSize).shift cheat.addressMask = some σ ∧
      cheat.valueToSet (itemValue s.bigEndian (bytesAt m p
        (cheatManagerSetupSearchMeta cheat.memorySearchSize).bytesPerItem)) = some first ∧
      cheat.valueToSet (oldItem m (cheatManagerSetupSearchMeta cheat.memorySearchSize)
        cheat.bigEndian p σ) = some given ∧
      cheat.Fits regions (cheatManagerSetupSearchMeta cheat.memorySearchSize) σ first given)

/-- Every cheat that is run is proper in the memory that those before it are to leave. -/
def ProperRun (s : CheatManager) (regions : List Region) :
    List ItemCheat → Bool → Snapshot → Prop
  | [], _, _ => True
  | cheat :: cheats, run, m =>
    if cheat.enabled then
      if run then
        cheat.Proper s regions m ∧
          if cheat.sets then ∀ m', intended regions cheat m = some m' →
            ProperRun s regions cheats true m'
          else ∀ currVal, cheat.lookedAt s m = some currVal →
            ProperRun s regions cheats (cheat.runNext currVal) m
      else ProperRun s regions cheats true m
    else ProperRun s regions cheats run m

/-- A manager whose memory is set up, with the regions it has. -/
structure Mapped (s : CheatManager) (regions : List Region) : Prop where
  holds : Holds s regions
  total : s.totalMemorySize = totalLength regions
  initialized : s.memoryInitialized = true

theorem sets_iff (currVal : UInt32) : cheat.sets = (cheat.valueToSet currVal).isSome := by
  unfold ItemCheat.sets ItemCheat.valueToSet
  cases cheat.cheatType <;> rfl

theorem setup_bytes_pos {size : ℕ} (h : size ≤ 5) :
    0 < (cheatManagerSetupSearchMeta size).bytesPerItem := by
  rcases wide_or_small h with hk | hk
  · rcases hk.bytes with hb | hb | hb <;> omega
  · rw [hk.bytes]
    exact Nat.one_pos

/-- Where the code looks at a proper cheat's address. -/
theorem ItemCheat.Proper.at (hproper : cheat.Proper s regions m) (hmapped : Mapped s regions)
    (hsmall : totalLength regions < 2 ^ 32)
    (hp : itemPlace regions (cheatManagerSetupSearchMeta cheat.memorySearchSize).bytesPerItem
      (cheat.address.toNat % totalLength regions) = some p) :
    At p cheat.address.toNat (translateAddress s cheat.address.toNat s.currMemoryBuf).1
        (translateAddress s cheat.address.toNat s.currMemoryBuf).2 ∧
      p.2 + (cheatManagerSetupSearchMeta cheat.memorySearchSize).bytesPerItem ≤ p.1.len :=
  reached_spec hmapped.holds hsmall (setup_bytes_pos hproper.size) hproper.reached hp

theorem lookedAt_place (hproper : cheat.Proper s regions m) (hmapped : Mapped s regions)
    (hsmall : totalLength regions < 2 ^ 32)
    (hp : itemPlace regions (cheatManagerSetupSearchMeta cheat.memorySearchSize).bytesPerItem
      (cheat.address.toNat % totalLength regions) = some p) :
    cheat.lookedAt s m = some (itemValue s.bigEndian (bytesAt m p
      (cheatManagerSetupSearchMeta cheat.memorySearchSize).bytesPerItem)) := by
  obtain ⟨hat, hlen⟩ := hproper.at hmapped hsmall hp
  unfold ItemCheat.lookedAt
  exact currValue_place hat hlen

theorem nextSearchMeta_of_le {size : ℕ} (h : size ≤ 5) (k : SearchMeta) :
    nextSearchMeta size k = cheatManagerSetupSearchMeta size := if_pos h

theorem applyCheat_eq (hproper : cheat.Proper s regions m) (run : Bool) (k : SearchMeta)
    (s' : CheatManager) : applyCheat s cheat ⟨s', m, run, k⟩ =
      (cheat.lookedAt s m).bind fun currVal =>
        match cheat.valueToSet currVal with
        | none => some ⟨s, m, cheat.runNext currVal,
            cheatManagerSetupSearchMeta cheat.memorySearchSize⟩
        | some value =>
          (repeatStores s cheat (cheatManagerSetupSearchMeta cheat.memorySearchSize)
            ⟨m, value.toNat, cheat.addressMask.toNat,
              (cheatManagerSetupSearchMeta cheat.memorySearchSize).mask.toNat,
              cheat.address.toNat,
              (translateAddress s cheat.address.toNat s.currMemoryBuf).1,
              (translateAddress s cheat.address.toNat s.currMemoryBuf).2⟩).map fun r =>
            ⟨s, r.memory, true, { cheatManagerSetupSearchMeta cheat.memorySearchSize with
              mask := r.mask.toUInt32 }⟩ := by
  unfold applyCheat
  rw [nextSearchMeta_of_le hproper.size]
  rfl

theorem applyCheat_sets (hmapped : Mapped s regions) (hpos : 0 < totalLength regions)
    (hsmall : totalLength regions < 2 ^ 32)
    (hproper : cheat.Proper s regions m) (hsets : cheat.sets = true) (run : Bool)
    (k : SearchMeta) (s' : CheatManager) :
    ∃ m' k', applyCheat s cheat ⟨s', m, run, k⟩ = some ⟨s, m', true, k'⟩ ∧
      intended regions cheat m = some m' := by
  obtain ⟨p, hp, hlies⟩ := hproper.lies
  obtain ⟨σ, first, given, hshift, hfirst, hgiven, hfits⟩ := hlies hsets
  have hstart : 0 < cheat.repeatCount.toNat → Before cheat regions
      (cheatManagerSetupSearchMeta cheat.memorySearchSize) σ first 0
      ⟨m, first.toNat, cheat.addressMask.toNat,
        (cheatManagerSetupSearchMeta cheat.memorySearchSize).mask.toNat, cheat.address.toNat,
        (translateAddress s cheat.address.toNat s.currMemoryBuf).1,
        (translateAddress s cheat.address.toNat s.currMemoryBuf).2⟩ := by
    intro hcount
    refine ⟨rfl, ?_, ?_, fun _ => rfl, fun _ => rfl⟩
    · intro q hq
      have hindex := index_mod (wide_or_small hproper.size) hshift hfits hcount
      rw [← hindex] at hq
      exact hproper.at hmapped hsmall hq
    · rw [Nat.zero_mul, Nat.add_zero]
      exact (Nat.mod_eq_of_lt first.toNat_lt).symm
  obtain ⟨u, hrun, hintended, -⟩ := repetitions_spec hmapped.holds hsmall hmapped.total hpos
    (wide_or_small hproper.size) hshift hfits hstart (Nat.le_refl _)
  refine ⟨u.memory, { cheatManagerSetupSearchMeta cheat.memorySearchSize with
    mask := u.mask.toUInt32 }, ?_, ?_⟩
  · rw [applyCheat_eq hproper, lookedAt_place hproper hmapped hsmall hp, Option.bind_some, hfirst]
    dsimp only
    unfold repeatStores
    rw [if_neg hfits.count, hrun]
    rfl
  · unfold intended
    dsimp only
    rw [hshift, Option.bind_some, hp, Option.bind_some, hgiven, Option.bind_some]
    exact hintended

variable {descriptors : List MemoryDescriptor} {systemRam : Region}

theorem withMemory_congr (m m' : Snapshot) (s : CheatManager) :
    withMemory descriptors systemRam m s = withMemory descriptors systemRam m' s := by
  unfold withMemory cheatManagerInitializeMemory
  simp only [Bool.false_eq_true, if_false]

theorem applyCheats_spec (hmapped : Mapped s regions) (hpos : 0 < totalLength regions)
    (hsmall : totalLength regions < 2 ^ 32)
    {cheats : List ItemCheat} {run : Bool} {s' : CheatManager} (k : SearchMeta)
    (hready : ∀ m, withMemory descriptors systemRam m s' = some s)
    (hproper : ProperRun s regions cheats run m) :
    ∃ t, applyCheats descriptors systemRam cheats ⟨s', m, run, k⟩ = some t ∧
      intendedRun s regions cheats run m = some t.memory := by
  have hmanager : ∀ m, withMemory descriptors systemRam m s = some s :=
    fun m => if_pos hmapped.initialized
  induction cheats generalizing s' m run k with
  | nil => exact ⟨_, rfl, rfl⟩
  | cons cheat cheats ih =>
    rw [applyCheats, intendedRun]
    rw [ProperRun] at hproper
    by_cases henabled : cheat.enabled = true
    · rw [if_pos henabled] at hproper ⊢
      rw [if_pos henabled, hready, Option.bind_some, if_pos hmapped.initialized]
      cases run with
      | false => exact ih k hmanager hproper
      | true =>
        obtain ⟨hcheat, hrest⟩ := hproper
        by_cases hsets : cheat.sets = true
        · rw [if_pos hsets] at hrest
          obtain ⟨m', k', happly, hintended⟩ :=
            applyCheat_sets hmapped hpos hsmall hcheat hsets true k s'
          rw [if_pos rfl, if_pos rfl, if_pos hsets, happly, hintended]
          exact ih k' hmanager (hrest m' hintended)
        · rw [if_neg hsets] at hrest
          obtain ⟨p, hp, -⟩ := hcheat.lies
          have hlooked := @lookedAt_place m s regions cheat p hcheat hmapped hsmall hp
          have hnone : cheat.valueToSet (itemValue s.bigEndian (bytesAt m p
              (cheatManagerSetupSearchMeta cheat.memorySearchSize).bytesPerItem)) = none := by
            rw [sets_iff] at hsets
            exact Option.not_isSome_iff_eq_none.mp hsets
          rw [if_pos rfl, if_pos rfl, if_neg hsets, applyCheat_eq hcheat, hlooked,
            Option.bind_some, Option.bind_some, hnone]
          exact ih _ hmanager (hrest _ hlooked)
    · rw [if_neg henabled] at hproper ⊢
      rw [if_neg henabled]
      exact ih k hready hproper

/-- Applying cheats does to the memory what they are to do, if every cheat that is run is proper. -/
theorem applied_as_intended {s' : CheatManager} {cheats : List ItemCheat}
    (hready : withMemory descriptors systemRam m s' = some s) (hmapped : Mapped s regions)
    (hpos : 0 < totalLength regions) (hsmall : totalLength regions < 2 ^ 32)
    (hproper : ProperRun s regions cheats true m) :
    AppliedAsIntended descriptors systemRam s' regions cheats m := by
  obtain ⟨t, happly, hintended⟩ := applyCheats_spec hmapped hpos hsmall ⟨1, 0, 8⟩
    (fun m' => (withMemory_congr m' m s').trans hready) hproper
  refine ⟨t.memory, ?_, ?_⟩
  · unfold cheatManagerApplyRetroCheats
    rw [happly]
    rfl
  · rw [hready]
    exact hintended

end Run

/-- A manager with one region of four bytes. -/
def fourBytes : CheatManager where
  totalMemorySize := 4
  currMemoryBuf := some ⟨0, 4⟩
  prevMemoryBuf := none
  matchBuf := none
  memoryBufList := [⟨0, 4⟩]
  memorySizeList := [4]
  searchBitSize := 3
  searchExactValue := 0
  searchEqplusValue := 0
  searchEqminusValue := 0
  numMatches := 0
  bigEndian := false
  memoryInitialized := true
  memorySearchInitialized := false

/-- Sets two bytes one after another, the second five greater than the first. -/
def twoBytes (value : UInt32) : ItemCheat where
  state := true
  handler := .retro
  memorySearchSize := 3
  cheatType := .setToValue
  value := value
  address := 0
  addressMask := 0xFF
  bigEndian := false
  repeatCount := 2
  repeatAddToValue := 5
  repeatAddToAddress := 1

theorem fourBytes_mapped : Mapped fourBytes [⟨0, 4⟩] := ⟨⟨rfl, rfl⟩, rfl, rfl⟩

theorem twoBytes_proper : ProperRun fourBytes [⟨0, 4⟩] [twoBytes 9] true fun _ _ => 0 := by
  refine ⟨⟨by decide, .inl (by decide), (⟨0, 4⟩, 0), by decide,
    fun _ => ⟨0, 9, 9, rfl, rfl, rfl, ?_⟩⟩, fun _ _ => trivial⟩
  refine ⟨by decide, by decide, fun h => absurd h (by decide), ?_, ?_, ?_⟩
  · intro n hn
    obtain rfl : n = 0 := by
      have hcount : n + 1 < 2 := hn
      omega
    decide
  · intro n hpos hn
    obtain rfl : n = 1 := by
      have hcount : n < 2 := hn
      omega
    decide
  · intro n _ j _
    rw [Nat.zero_add]

theorem applied_as_intended_twoBytes :
    AppliedAsIntended [] ⟨0, 0⟩ fourBytes [⟨0, 4⟩] [twoBytes 9] fun _ _ => 0 :=
  applied_as_intended rfl fourBytes_mapped (by decide) (by decide) twoBytes_proper

/-- 255 is a value of a byte, but the second byte is set to zero instead. -/
theorem wraps_early : Mapped fourBytes [⟨0, 4⟩] ∧
    ¬AppliedAsIntended [] ⟨0, 0⟩ fourBytes [⟨0, 4⟩] [twoBytes 250] fun _ _ => 0 := by
  refine ⟨fourBytes_mapped, ?_⟩
  rintro ⟨m', hcode, hintended⟩
  have hzero : (cheatManagerApplyRetroCheats [] ⟨0, 0⟩ fourBytes [twoBytes 250]
      fun _ _ => 0).map (· 0 1) = some 0 := by decide
  have hmax : ((withMemory [] ⟨0, 0⟩ (fun _ _ => 0) fourBytes).bind fun s =>
      intendedRun s [⟨0, 4⟩] [twoBytes 250] true fun _ _ => 0).map (· 0 1) = some 255 := by
    decide
  rw [hcode] at hzero
  rw [hintended, hzero] at hmax
  exact absurd hmax (by decide)

end RetroArch.Cheats
