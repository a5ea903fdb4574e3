/- The patches between savestates: a run-length code of what changed, in 16-bit words. -/

import Mathlib.Data.List.Basic
import Mathlib.Tactic.Ring

namespace RetroArch.Rewind.Patch

/-- `find_change`, scanning eight words at a time and comparing them in pairs. There is no
bounds check; running off the end of a block has no result. -/
def findChange : List UInt16 → List UInt16 → Option ℕ
  | a₀ :: a₁ :: a₂ :: a₃ :: a₄ :: a₅ :: a₆ :: a₇ :: a128,
    b₀ :: b₁ :: b₂ :: b₃ :: b₄ :: b₅ :: b₆ :: b₇ :: b128 =>
      if a₀ = b₀ ∧ a₁ = b₁ then
        if a₂ = b₂ ∧ a₃ = b₃ then
          if a₄ = b₄ ∧ a₅ = b₅ then
            if a₆ = b₆ ∧ a₇ = b₇ then (findChange a128 b128).map (· + 8)
            else some (if a₆ = b₆ then 7 else 6)
          else some (if a₄ = b₄ then 5 else 4)
        else some (if a₂ = b₂ then 3 else 2)
      else some (if a₀ = b₀ then 1 else 0)
  | _, _ => none

/-- The loop of `find_same`, two words at a time. -/
def scanSame : List UInt16 → List UInt16 → Option ℕ
  | a₀ :: a₁ :: aBig, b₀ :: b₁ :: bBig =>
    if a₀ = b₀ ∧ a₁ = b₁ then some 0 else (scanSame aBig bBig).map (· + 2)
  | _, _ => none

/-- `find_same`, which steps back by one word where that one is the same already. -/
def findSame (a b : List UInt16) : Option ℕ :=
  (scanSame a b).map fun i => if i ≠ 0 ∧ a[i - 1]? = b[i - 1]? then i - 1 else i

/-- The loop of `state_manager_raw_compress`. Every round shortens `num16s`, which bounds the
rounds; the result is what is written to the patch. -/
def compressAt : ℕ → List UInt16 → List UInt16 → ℕ → Option (List UInt16)
  | 0, _, _, _ => none
  | fuel + 1, old16, new16, num16s =>
    if num16s = 0 then some [0, 0, 0]
    else
      (findChange old16 new16).bind fun skip =>
        if num16s ≤ skip then some [0, 0, 0]
        else
          let old16 := old16.drop skip
          let new16 := new16.drop skip
          let num16s := num16s - skip
          if 0xFFFF < skip then
            -- the words are passed over in full before the count is cut to 32 bits
            let skip := if 0xFFFFFFFF < skip then 0xFFFFFFFF else skip
            (compressAt fuel old16 new16 num16s).map fun rest =>
              0 :: UInt16.ofNat skip :: UInt16.ofNat (skip >>> 16) :: rest
          else
            (findSame old16 new16).bind fun changed =>
              let changed := if 0xFFFF < changed then 0xFFFF else changed
              (compressAt fuel (old16.drop changed) (new16.drop changed) (num16s - changed)).map
                fun rest =>
                  UInt16.ofNat changed :: UInt16.ofNat skip :: (old16.take changed ++ rest)

def stateManagerRawCompress (src dst : List UInt16) (len : ℕ) : Option (List UInt16) :=
  compressAt ((len + 1) / 2 + 1) src dst ((len + 1) / 2)

/-- The loop of `state_manager_raw_decompress`; every round reads from the patch. What lies
behind the patch in memory is not read, and a write past the end of the data has no result. -/
def decompressAt : ℕ → List UInt16 → List UInt16 → Option (List UInt16)
  | fuel + 1, numchanged :: patch16, out16 =>
    if numchanged ≠ 0 then
      match patch16 with
      | [] => none
      | skip :: patch16 =>
        if numchanged.toNat ≤ patch16.length ∧
            skip.toNat + numchanged.toNat ≤ out16.length then
          (decompressAt fuel (patch16.drop numchanged.toNat)
            (out16.drop (skip.toNat + numchanged.toNat))).map
              fun rest => out16.take skip.toNat ++ (patch16.take numchanged.toNat ++ rest)
        else none
    else
      match patch16 with
      | lo :: hi :: patch16 =>
        let numunchanged := lo.toNat ||| hi.toNat <<< 16
        if numunchanged = 0 then some out16
        else if numunchanged ≤ out16.length then
          (decompressAt fuel patch16 (out16.drop numunchanged)).map
            fun rest => out16.take numunchanged ++ rest
        else none
      | _ => none
  | _, _, _ => none

def stateManagerRawDecompress (patch data : List UInt16) : Option (List UInt16) :=
  decompressAt (patch.length + 1) patch data

/-- What `state_manager_raw_alloc` puts behind the state: words that are the same in both
blocks, one that is not, and room for the last vector. -/
def padding (uniq : UInt16) : List UInt16 := [0, 0, 0, uniq, 0, 0, 0, 0, 0, 0, 0, 0]

def stateManagerRawAlloc (len : ℕ) (uniq : UInt16) : List UInt16 :=
  (List.replicate ((len + 1) / 2 + 12) 0).set ((len + 1) / 2 + 3) uniq

def stateManagerRawMaxsize (uncomp : ℕ) : ℕ :=
  let maxcblkcover := 0xFFFF * 2
  let uncomp16 := (uncomp + 1) / 2 * 2
  let maxcblks := (uncomp + maxcblkcover - 1) / maxcblkcover
  uncomp16 + maxcblks * 2 * 2 + 2 * 3

theorem stateManagerRawAlloc_eq (len : ℕ) (uniq : UInt16) :
    stateManagerRawAlloc len uniq = List.replicate ((len + 1) / 2) 0 ++ padding uniq := by
  rw [stateManagerRawAlloc, List.replicate_add, List.set_append_right _ _ (by simp)]
  simp [padding, List.replicate]

theorem findChange_append (p : List UInt16) {x y : UInt16} {as bs : List UInt16} (hxy : x ≠ y)
    (ha : 7 ≤ as.length) (hb : 7 ≤ bs.length) :
    findChange (p ++ x :: as) (p ++ y :: bs) = some p.length := by
  have seven : ∀ l : List UInt16, 7 ≤ l.length → ∃ c₁ c₂ c₃ c₄ c₅ c₆ c₇ l',
      l = c₁ :: c₂ :: c₃ :: c₄ :: c₅ :: c₆ :: c₇ :: l' := by
    intro l hl
    match l with
    | c₁ :: c₂ :: c₃ :: c₄ :: c₅ :: c₆ :: c₇ :: l' => exact ⟨_, _, _, _, _, _, _, _, rfl⟩
  obtain ⟨c₁, c₂, c₃, c₄, c₅, c₆, c₇, as', rfl⟩ := seven as ha
  obtain ⟨d₁, d₂, d₃, d₄, d₅, d₆, d₇, bs', rfl⟩ := seven bs hb
  induction hp : p.length using Nat.strong_induction_on generalizing p with
  | _ len ih =>
    match p with
    | [] => simp_all [findChange]
    | [_] => simp_all [findChange]
    | [_, _] => simp_all [findChange]
    | [_, _, _] => simp_all [findChange]
    | [_, _, _, _] => simp_all [findChange]
    | [_, _, _, _, _] => simp_all [findChange]
    | [_, _, _, _, _, _] => simp_all [findChange]
    | [_, _, _, _, _, _, _] => simp_all [findChange]
    | p₀ :: p₁ :: p₂ :: p₃ :: p₄ :: p₅ :: p₆ :: p₇ :: p =>
      have hlen : p.length + 8 = len := by simpa using hp
      have hrest := ih p.length (by omega) p rfl
      simp only [List.cons_append, findChange, and_self, if_true, hrest, Option.map_some,
        hlen]

theorem scanSame_spec {a b : List UInt16} {i : ℕ} (ha : 2 * i + 1 < a.length)
    (hb : 2 * i + 1 < b.length) (h₀ : a[2 * i]? = b[2 * i]?)
    (h₁ : a[2 * i + 1]? = b[2 * i + 1]?) :
    ∃ j ≤ i, scanSame a b = some (2 * j) ∧ a[2 * j]? = b[2 * j]? ∧
      a[2 * j + 1]? = b[2 * j + 1]? := by
  induction i generalizing a b with
  | zero =>
    match a, b with
    | a₀ :: a₁ :: as, b₀ :: b₁ :: bs =>
      have heq : a₀ = b₀ ∧ a₁ = b₁ := ⟨by simpa using h₀, by simpa using h₁⟩
      exact ⟨0, le_rfl, by rw [scanSame, if_pos heq], h₀, h₁⟩
  | succ i ih =>
    match a, b with
    | a₀ :: a₁ :: as, b₀ :: b₁ :: bs =>
      by_cases heq : a₀ = b₀ ∧ a₁ = b₁
      · exact ⟨0, Nat.zero_le _, by rw [scanSame, if_pos heq], by simp [heq.1],
          by simp [heq.2]⟩
      · simp only [List.length_cons] at ha hb
        obtain ⟨j, hj, hscan, hj₀, hj₁⟩ := ih (a := as) (b := bs) (by omega) (by omega)
          (by simpa [Nat.mul_add] using h₀) (by simpa [Nat.mul_add] using h₁)
        refine ⟨j + 1, by omega, ?_, by simpa [Nat.mul_add] using hj₀,
          by simpa [Nat.mul_add] using hj₁⟩
        rw [scanSame, if_neg heq, hscan]
        rfl

private theorem padding_same {wa wb : List UInt16} {m : ℕ} (u v : UInt16) (ha : wa.length = m)
    (hb : wb.length = m) {i : ℕ} (hi : m ≤ i) (hi' : i < m + 3) :
    (wa ++ padding u)[i]? = (wb ++ padding v)[i]? := by
  rw [List.getElem?_append_right (by omega), List.getElem?_append_right (by omega), ha, hb]
  obtain h | h | h : i - m = 0 ∨ i - m = 1 ∨ i - m = 2 := by omega
  · rw [h]
    rfl
  · rw [h]
    rfl
  · rw [h]
    rfl

/-- From a changed word on, the changed part ends within the state and two words that are the
same follow it. -/
theorem findSame_spec {wa wb : List UInt16} {m : ℕ} (u v : UInt16) (ha : wa.length = m)
    (hb : wb.length = m) (hne : (wa ++ padding u)[0]? ≠ (wb ++ padding v)[0]?) :
    ∃ c, findSame (wa ++ padding u) (wb ++ padding v) = some c ∧ 0 < c ∧ c ≤ m ∧
      (wa ++ padding u)[c]? = (wb ++ padding v)[c]? ∧
      (wa ++ padding u)[c + 1]? = (wb ++ padding v)[c + 1]? := by
  have hpad : (padding u).length = 12 ∧ (padding v).length = 12 := ⟨rfl, rfl⟩
  have same := fun i => padding_same (i := i) u v ha hb
  obtain ⟨i, hi⟩ : ∃ i, i = (m + 1) / 2 := ⟨_, rfl⟩
  have hm := same m le_rfl (by omega)
  obtain ⟨j, hj, hscan, hj₀, hj₁⟩ := scanSame_spec (a := wa ++ padding u)
    (b := wb ++ padding v) (i := i) (by rw [List.length_append]; omega)
    (by rw [List.length_append]; omega) (same _ (by omega) (by omega))
    (same _ (by omega) (by omega))
  have hpos : j ≠ 0 := by
    rintro rfl
    exact hne hj₀
  rw [findSame, hscan, Option.map_some]
  by_cases hback : (wa ++ padding u)[2 * j - 1]? = (wb ++ padding v)[2 * j - 1]?
  · rw [if_pos ⟨by omega, hback⟩]
    refine ⟨2 * j - 1, rfl, by omega, by omega, hback, ?_⟩
    rw [Nat.sub_add_cancel (by omega)]
    exact hj₀
  · rw [if_neg (fun h => hback h.2)]
    refine ⟨2 * j, rfl, by omega, ?_, hj₀, hj₁⟩
    by_contra hgt
    -- past the state only by one word, and the last one of the state's padding is the same
    rw [show 2 * j - 1 = m by omega] at hback
    exact hback hm

/-- Either the states are the same and the scan stops in the padding, or it stops at the first
change. -/
theorem findChange_cases {wo wn : List UInt16} {m : ℕ} {u v : UInt16} (huv : u ≠ v)
    (ho : wo.length = m) (hn : wn.length = m) :
    (wo = wn ∧ findChange (wo ++ padding u) (wn ++ padding v) = some (m + 3)) ∨
      ∃ p x y so sn, x ≠ y ∧ wo = p ++ x :: so ∧ wn = p ++ y :: sn ∧
        findChange (wo ++ padding u) (wn ++ padding v) = some p.length := by
  by_cases heq : wo = wn
  · subst heq
    refine .inl ⟨rfl, ?_⟩
    have hroom : 7 ≤ ([0, 0, 0, 0, 0, 0, 0, 0] : List UInt16).length := by decide
    have hscan := findChange_append (wo ++ [0, 0, 0]) huv hroom hroom
    rw [List.append_assoc, List.append_assoc, List.length_append, ho] at hscan
    exact hscan
  · refine .inr ?_
    have split : ∀ (k : ℕ) (wo wn : List UInt16), wo.length = k → wn.length = k → wo ≠ wn →
        ∃ p x y so sn, x ≠ y ∧ wo = p ++ x :: so ∧ wn = p ++ y :: sn := by
      intro k
      induction k with
      | zero =>
        intro wo wn ho hn h
        rw [List.eq_nil_of_length_eq_zero ho, List.eq_nil_of_length_eq_zero hn] at h
        exact absurd rfl h
      | succ k ih =>
        intro wo wn ho hn h
        match wo, wn with
        | x :: wo, y :: wn =>
          by_cases hxy : x = y
          · subst hxy
            obtain ⟨p, x', y', so, sn, hxy, rfl, rfl⟩ := ih wo wn (by simpa using ho)
              (by simpa using hn) (fun e => h (by rw [e]))
            exact ⟨x :: p, x', y', so, sn, hxy, rfl, rfl⟩
          · exact ⟨[], x, y, wo, wn, hxy, rfl, rfl⟩
    obtain ⟨p, x, y, so, sn, hxy, rfl, rfl⟩ := split m wo wn ho hn heq
    refine ⟨p, x, y, so, sn, hxy, rfl, rfl, ?_⟩
    rw [List.append_assoc, List.append_assoc]
    exact findChange_append p hxy (by simp [padding]) (by simp [padding])

theorem decompressAt_block {fuel skip changed : ℕ} {p d e t rest : List UInt16}
    (hc : 0 < changed) (hc' : changed ≤ 0xFFFF) (hs : skip ≤ 0xFFFF) (hp : p.length = skip)
    (hd : d.length = changed) (he : e.length = changed) :
    decompressAt (fuel + 1)
        (UInt16.ofNat changed :: UInt16.ofNat skip :: (d ++ rest)) (p ++ (e ++ t)) =
      (decompressAt fuel rest t).map fun out => p ++ (d ++ out) := by
  have hchanged : (UInt16.ofNat changed).toNat = changed := by
    rw [UInt16.toNat_ofNat']
    omega
  have hskip : (UInt16.ofNat skip).toNat = skip := by
    rw [UInt16.toNat_ofNat']
    omega
  have hne : UInt16.ofNat changed ≠ 0 := by
    intro h
    rw [h] at hchanged
    exact absurd hchanged (by simpa using (Nat.ne_of_gt hc).symm)
  subst hp hd
  have hfits : d.length ≤ (d ++ rest).length ∧
      p.length + d.length ≤ (p ++ (e ++ t)).length := by
    simp only [List.length_append]
    omega
  rw [decompressAt, if_pos hne]
  simp only [hchanged, hskip]
  rw [if_pos hfits, List.drop_left, List.take_left, List.take_left, ← List.drop_drop,
    List.drop_left, ← he, List.drop_left]

theorem decompressAt_skip {fuel skip : ℕ} {p t rest : List UInt16} (hs : 0xFFFF < skip)
    (hs' : skip ≤ 0xFFFFFFFF) (hp : p.length = skip) :
    decompressAt (fuel + 1)
        (0 :: UInt16.ofNat skip :: UInt16.ofNat (skip >>> 16) :: rest) (p ++ t) =
      (decompressAt fuel rest t).map (p ++ ·) := by
  have hcount : (UInt16.ofNat skip).toNat ||| (UInt16.ofNat (skip >>> 16)).toNat <<< 16 =
      skip := by
    rw [UInt16.toNat_ofNat', UInt16.toNat_ofNat', Nat.shiftRight_eq_div_pow, Nat.or_comm,
      ← Nat.shiftLeft_add_eq_or_of_lt (Nat.mod_lt _ (by decide)), Nat.shiftLeft_eq]
    omega
  subst hp
  rw [decompressAt, if_neg (by simp)]
  simp only [hcount]
  rw [if_neg (by omega), if_pos (by simp), List.drop_left, List.take_left]

theorem decompressAt_end (fuel : ℕ) (rest out : List UInt16) :
    decompressAt (fuel + 1) (0 :: 0 :: 0 :: rest) out = some out := by
  simp [decompressAt]

/-- The patches any build writes, from the new state back to the old one. -/
inductive Blocks : List UInt16 → List UInt16 → List UInt16 → Prop
  | same (w : List UInt16) : Blocks w w [0, 0, 0]
  | long {p o n r : List UInt16} (hp : 0xFFFF < p.length) (ho : 0 < o.length)
      (hrest : Blocks o n r) :
      Blocks (p ++ o) (p ++ n)
        (0 :: UInt16.ofNat (if 0xFFFFFFFF < p.length then 0xFFFFFFFF else p.length) ::
          UInt16.ofNat ((if 0xFFFFFFFF < p.length then 0xFFFFFFFF else p.length) >>> 16) :: r)
  | block {p d e o n r : List UInt16} (hp : p.length ≤ 0xFFFF) (hd : 0 < d.length)
      (hd' : d.length ≤ 0xFFFF) (he : e.length = d.length) (hrest : Blocks o n r) :
      Blocks (p ++ (d ++ o)) (p ++ (e ++ n))
        (UInt16.ofNat d.length :: UInt16.ofNat p.length :: (d ++ r))

/-- Both states go on with two words that are the same, counting the padding. -/
def Gap (u v : UInt16) (o n : List UInt16) : Prop :=
  (o ++ padding u)[0]? = (n ++ padding v)[0]? ∧ (o ++ padding u)[1]? = (n ++ padding v)[1]?

/-- The patches the compressor writes, from the new state back to the old one. A changed block
that was not cut short is followed by a gap. -/
inductive Diff (u v : UInt16) : List UInt16 → List UInt16 → List UInt16 → Prop
  | same (w : List UInt16) : Diff u v w w [0, 0, 0]
  | long {p o n r : List UInt16} (hp : 0xFFFF < p.length) (ho : 0 < o.length)
      (hrest : Diff u v o n r) :
      Diff u v (p ++ o) (p ++ n)
        (0 :: UInt16.ofNat (if 0xFFFFFFFF < p.length then 0xFFFFFFFF else p.length) ::
          UInt16.ofNat ((if 0xFFFFFFFF < p.length then 0xFFFFFFFF else p.length) >>> 16) :: r)
  | block {p d e o n r : List UInt16} (hp : p.length ≤ 0xFFFF) (hd : 0 < d.length)
      (hd' : d.length ≤ 0xFFFF) (he : e.length = d.length) (hne : d[0]? ≠ e[0]?)
      (hgap : d.length = 0xFFFF ∨ Gap u v o n) (hrest : Diff u v o n r) :
      Diff u v (p ++ (d ++ o)) (p ++ (e ++ n))
        (UInt16.ofNat d.length :: UInt16.ofNat p.length :: (d ++ r))

theorem length_take_drop {l : List UInt16} {m k : ℕ} (h : l.length = m) (hk : k ≤ m) :
    (l.take k).length = k ∧ (l.drop k).length = m - k :=
  ⟨by rw [List.length_take, h, Nat.min_eq_left hk], by rw [List.length_drop, h]⟩

theorem compressAt_diff {u v : UInt16} (huv : u ≠ v) {fuel m : ℕ} {wo wn : List UInt16}
    (ho : wo.length = m) (hn : wn.length = m) (hfuel : m < fuel) :
    ∃ r, compressAt fuel (wo ++ padding u) (wn ++ padding v) m = some r ∧ Diff u v wo wn r := by
  induction fuel generalizing m wo wn with
  | zero => omega
  | succ fuel ih =>
    rw [compressAt]
    split_ifs with hzero
    · subst hzero
      rw [List.eq_nil_of_length_eq_zero ho, List.eq_nil_of_length_eq_zero hn]
      exact ⟨_, rfl, .same []⟩
    obtain ⟨rfl, hfind⟩ | ⟨p, x, y, so, sn, hxy, rfl, rfl, hfind⟩ := findChange_cases huv ho hn
    · rw [hfind, Option.bind_some, if_pos (by omega)]
      exact ⟨_, rfl, .same wo⟩
    rw [List.length_append] at ho hn
    have hpos : 0 < (x :: so).length := Nat.zero_lt_succ _
    have hlen : (x :: so).length = m - p.length := by omega
    have hlen' : (y :: sn).length = m - p.length := by omega
    rw [hfind, Option.bind_some, if_neg (by omega)]
    simp only [List.append_assoc, List.drop_left]
    by_cases hlong : 0xFFFF < p.length
    · obtain ⟨r, hr, hdiff⟩ := ih hlen hlen' (by omega)
      rw [if_pos hlong, hr]
      exact ⟨_, rfl, .long hlong hpos hdiff⟩
    · obtain ⟨c, hsame, hc, hcm, hgap₀, hgap₁⟩ := findSame_spec u v hlen hlen'
        (by simpa using hxy)
      rw [if_neg hlong, hsame, Option.bind_some]
      obtain ⟨k, hk⟩ : ∃ k, k = if 0xFFFF < c then 0xFFFF else c := ⟨_, rfl⟩
      have hkc : 0 < k ∧ k ≤ c ∧ k ≤ 0xFFFF ∧ (k = 0xFFFF ∨ k = c) := by
        split_ifs at hk <;> omega
      obtain ⟨htake, hdrop⟩ := length_take_drop hlen (k := k) (by omega)
      obtain ⟨htake', hdrop'⟩ := length_take_drop hlen' (k := k) (by omega)
      obtain ⟨r, hr, hdiff⟩ := ih hdrop hdrop' (by omega)
      have hgap : k = 0xFFFF ∨ Gap u v ((x :: so).drop k) ((y :: sn).drop k) := by
        rcases hkc.2.2.2 with h | rfl
        · exact .inl h
        · refine .inr ⟨?_, ?_⟩
          · rw [← List.drop_append_of_le_length (by omega),
              ← List.drop_append_of_le_length (by omega), List.getElem?_drop,
              List.getElem?_drop]
            exact hgap₀
          · rw [← List.drop_append_of_le_length (by omega),
              ← List.drop_append_of_le_length (by omega), List.getElem?_drop,
              List.getElem?_drop]
            exact hgap₁
      rw [← hk, List.drop_append_of_le_length (by omega),
        List.drop_append_of_le_length (by omega), List.take_append_of_le_length (by omega), hr]
      refine ⟨_, rfl, ?_⟩
      have hblock := Diff.block (p := p) (d := (x :: so).take k) (e := (y :: sn).take k)
        (Nat.le_of_not_lt hlong) (by omega) (by omega) (htake'.trans htake.symm)
        (by rw [List.getElem?_take, List.getElem?_take, if_pos hkc.1, if_pos hkc.1]
            simpa using hxy)
        (by rw [htake]; exact hgap) hdiff
      rw [List.take_append_drop, List.take_append_drop, htake] at hblock
      exact hblock

theorem Diff.length_eq {u v : UInt16} {o n r : List UInt16} (h : Diff u v o n r) :
    o.length = n.length := by
  induction h with
  | same w => rfl
  | long _ _ _ ih => rw [List.length_append, List.length_append, ih]
  | block _ _ _ he _ _ _ ih => simp only [List.length_append, he, ih]

/-- A block costs two words of its own. It either was cut short at 65535 words or is paid for by
the gap in front of the next one. -/
theorem Diff.length_le {u v : UInt16} {o n r : List UInt16} (h : Diff u v o n r) :
    r.length ≤ o.length + 2 * ((o.length + 65534) / 65535) + 3 ∧
      (Gap u v o n → r.length ≤ o.length + 2 * (o.length / 65535) + 3) := by
  induction h with
  | same w =>
    simp only [List.length_cons, List.length_nil]
    exact ⟨by omega, fun _ => by omega⟩
  | long hp ho hrest ih =>
    simp only [List.length_cons, List.length_append]
    exact ⟨by omega, fun _ => by omega⟩
  | @block p d e o n r hp hd hd' he hne hgap hrest ih =>
    simp only [List.length_cons, List.length_append]
    obtain ⟨hall, hafter⟩ := ih
    refine ⟨?_, fun hbefore => ?_⟩
    · rcases hgap with hcut | hgap
      · omega
      · have := hafter hgap
        omega
    · -- the block starts with a change, so the gap in front of it is unchanged words
      have htwo : 2 ≤ p.length := by
        by_contra hshort
        have head : ∀ (l t s : List UInt16), 0 < l.length → l.length = d.length →
            (p ++ (l ++ t) ++ s)[p.length]? = l[0]? := by
          intro l t s hl _
          rw [List.append_assoc, List.getElem?_append_right le_rfl, Nat.sub_self,
            List.append_assoc, List.getElem?_append_left hl]
        have ho := head d o (padding u) hd rfl
        have hn := head e n (padding v) (by omega) he
        obtain hp0 | hp1 : p.length = 0 ∨ p.length = 1 := by omega
        · rw [hp0] at ho hn
          exact hne (ho.symm.trans (hbefore.1.trans hn))
        · rw [hp1] at ho hn
          exact hne (ho.symm.trans (hbefore.2.trans hn))
      rcases hgap with hcut | hgap
      · omega
      · have := hafter hgap
        omega

/-- Up to 2^32 words, applying the patch to the new state gives the old one back, whatever
follows either in memory. -/
theorem Blocks.decompress {o n r : List UInt16} (h : Blocks o n r) (hlen : o.length ≤ 2 ^ 32)
    {fuel : ℕ} (hfuel : r.length ≤ fuel) (junk t : List UInt16) :
    decompressAt fuel (r ++ junk) (n ++ t) = some (o ++ t) := by
  induction h generalizing fuel with
  | same w =>
    obtain ⟨fuel, rfl⟩ : ∃ k, fuel = k + 1 := ⟨fuel - 1, by simp at hfuel; omega⟩
    exact decompressAt_end _ _ _
  | @long p o n r hp ho hrest ih =>
    simp only [List.length_cons] at hfuel
    rw [List.length_append] at hlen
    obtain ⟨fuel, rfl⟩ : ∃ k, fuel = k + 1 := ⟨fuel - 1, by omega⟩
    rw [if_neg (by omega), List.cons_append, List.cons_append, List.cons_append,
      List.append_assoc, decompressAt_skip hp (by omega) rfl, ih (by omega) (by omega),
      Option.map_some, List.append_assoc]
  | @block p d e o n r hp hd hd' he hrest ih =>
    simp only [List.length_cons, List.length_append] at hfuel hlen
    obtain ⟨fuel, rfl⟩ : ∃ k, fuel = k + 1 := ⟨fuel - 1, by omega⟩
    rw [List.cons_append, List.cons_append, List.append_assoc, List.append_assoc,
      List.append_assoc, decompressAt_block hd hd' hp rfl rfl he, ih (by omega) (by omega),
      Option.map_some, List.append_assoc, List.append_assoc]

theorem Diff.blocks {u v : UInt16} {o n r : List UInt16} (h : Diff u v o n r) : Blocks o n r := by
  induction h with
  | same w => exact .same w
  | long hp ho _ ih => exact .long hp ho ih
  | block hp hd hd' he _ _ _ ih => exact .block hp hd hd' he ih

theorem Diff.decompress {u v : UInt16} {o n r : List UInt16} (h : Diff u v o n r)
    (hlen : o.length ≤ 2 ^ 32) {fuel : ℕ} (hfuel : r.length ≤ fuel) (junk t : List UInt16) :
    decompressAt fuel (r ++ junk) (n ++ t) = some (o ++ t) :=
  h.blocks.decompress hlen hfuel junk t

end RetroArch.Rewind.Patch
