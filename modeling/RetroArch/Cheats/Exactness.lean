/- A search keeps exactly the candidates. -/

import RetroArch.Cheats.Regions
import RetroArch.Library.Sweeping
import Mathlib.Data.Nat.ModEq

namespace RetroArch.Cheats

open Library.Memory Library.Sweeping

section Marks

theorem and_not_self (a x : UInt8) : (a &&& ~~~x) &&& x = 0 := by
  apply UInt8.toBitVec_inj.mp
  ext i hi
  simp

theorem and_not_and {x y : UInt8} (a : UInt8) (h : x &&& y = 0) :
    (a &&& ~~~x) &&& y = a &&& y := by
  have hbits : (x &&& y).toBitVec = 0#8 := congrArg UInt8.toBitVec h
  apply UInt8.toBitVec_inj.mp
  ext i hi
  have hbit := congrArg (fun v : BitVec 8 => v[i]) hbits
  simp at hbit ⊢
  cases hx : x.toBitVec[i] with
  | false => rw [Bool.not_false, Bool.and_true]
  | true => rw [hbit hx, Bool.and_false, Bool.and_false]

variable {b n : ℕ}

theorem item_ends {size idx : ℕ} (hdvd : size ∣ idx) (haligned : size ∣ n) (hlt : idx < n) :
    idx + size ≤ n := by
  have hsame : idx ≡ n [MOD size] :=
    ((Nat.modEq_zero_iff_dvd).mpr hdvd).trans ((Nat.modEq_zero_iff_dvd).mpr haligned).symm
  exact hsame.add_le_of_lt hlt

theorem marked_of_get {k : SearchMeta} {buf : List UInt8} {item : Item} {byte : UInt8}
    (h : buf[item.1]? = some byte) : marked k buf item = decide (0 < byte &&& k.group item.2) := by
  unfold marked
  rw [h]

theorem unmark_spec (hb : b ≤ 5) {k : SearchMeta} (hk : k = cheatManagerSetupSearchMeta b)
    (haligned : k.bytesPerItem ∣ n) {buf : List UInt8} (hlength : buf.length = n) {item : Item}
    (hitem : item ∈ itemsOf k n) :
    ∃ buf', k.unmark buf item.1 item.2 = some buf' ∧ buf'.length = n ∧
      ∀ j ∈ itemsOf k n, marked k buf' j = (marked k buf j && !decide (j = item)) := by
  have hpos : 0 < k.bytesPerItem := hk ▸ bytesPerItem_pos b
  obtain ⟨hdvd, hlt, hpart⟩ := (mem_itemsOf hpos).mp hitem
  have hin : item.1 < buf.length := lt_of_lt_of_eq hlt hlength.symm
  have hget : buf[item.1]? = some buf[item.1] := List.getElem?_eq_getElem hin
  unfold SearchMeta.unmark
  by_cases hbits : k.bits < 8
  · rw [if_pos hbits, hget, Option.bind_some, poke_of_lt hin]
    refine ⟨_, rfl, by rw [List.length_set, hlength], ?_⟩
    intro j hj
    obtain ⟨-, -, hpart'⟩ := (mem_itemsOf hpos).mp hj
    by_cases hidx : j.1 = item.1
    · have hget' : (buf.set item.1 (buf[item.1] &&& ~~~ k.group item.2))[j.1]? =
          some (buf[item.1] &&& ~~~ k.group item.2) := by
        rw [hidx, List.getElem?_set_self hin]
      have hgetj : buf[j.1]? = some buf[item.1] := by
        rw [hidx]
        exact hget
      rw [marked_of_get hget', marked_of_get hgetj]
      by_cases hsame : j.2 = item.2
      · have heq : j = item := Prod.ext hidx hsame
        rw [decide_eq_true heq, hsame, and_not_self, Bool.not_true, Bool.and_false]
        rfl
      · have hne : j ≠ item := fun h => hsame (congrArg Prod.snd h)
        have hdisjoint : k.group item.2 &&& k.group j.2 = 0 := by
          rw [hk] at hpart hpart' ⊢
          exact group_disjoint hb hpart hpart' (Ne.symm hsame)
        rw [decide_eq_false hne, and_not_and _ hdisjoint, Bool.not_false, Bool.and_true]
    · have hne : j ≠ item := fun h => hidx (congrArg Prod.fst h)
      unfold marked
      rw [List.getElem?_set_ne (Ne.symm hidx), decide_eq_false hne, Bool.not_false,
        Bool.and_true]
  · -- a whole item: all of its bytes are cleared, and it has one group
    have hone : 8 / k.bits = 1 := by
      rw [hk] at hbits ⊢
      interval_cases b <;> first | rfl | exact absurd (by decide) hbits
    have hends : item.1 + k.bytesPerItem ≤ buf.length :=
      hlength ▸ item_ends hdvd haligned hlt
    rw [if_neg hbits, pokes, List.length_replicate, if_pos hends]
    refine ⟨_, rfl, ?_, ?_⟩
    · rw [List.length_append, List.length_append, List.length_take, List.length_drop,
        List.length_replicate]
      omega
    · intro j hj
      obtain ⟨hdvd', hlt', hpart'⟩ := (mem_itemsOf hpos).mp hj
      have hlengthTake : (buf.take item.1).length = item.1 := by
        rw [List.length_take]
        omega
      by_cases hidx : j.1 = item.1
      · have heq : j = item := Prod.ext hidx (by omega)
        have hget' : (buf.take item.1 ++ List.replicate k.bytesPerItem 0 ++
            buf.drop (item.1 + k.bytesPerItem))[j.1]? = some 0 := by
          rw [hidx, List.append_assoc, List.getElem?_append_right (by rw [hlengthTake]),
            hlengthTake, Nat.sub_self, List.getElem?_append_left
              (by rw [List.length_replicate]; exact hpos),
            List.getElem?_replicate, if_pos hpos]
        rw [marked_of_get hget', decide_eq_true heq, Bool.not_true, Bool.and_false,
          UInt8.zero_and]
        rfl
      · have hne : j ≠ item := fun h => hidx (congrArg Prod.fst h)
        have hget' : (buf.take item.1 ++ List.replicate k.bytesPerItem 0 ++
            buf.drop (item.1 + k.bytesPerItem))[j.1]? = buf[j.1]? := by
          rcases Nat.lt_or_gt_of_ne hidx with hless | hmore
          · rw [List.append_assoc, List.getElem?_append_left (by rw [hlengthTake]; exact hless),
              List.getElem?_take_of_lt hless]
          · have hbeyond : item.1 + k.bytesPerItem ≤ j.1 := by
              obtain ⟨a, ha⟩ := hdvd
              obtain ⟨c, hc⟩ := hdvd'
              rw [ha, hc] at hmore ⊢
              rw [← Nat.mul_succ]
              exact Nat.mul_le_mul_left _ (Nat.lt_of_mul_lt_mul_left hmore)
            have hfront : (buf.take item.1 ++ List.replicate k.bytesPerItem 0).length =
                item.1 + k.bytesPerItem := by
              rw [List.length_append, hlengthTake, List.length_replicate]
            rw [List.getElem?_append_right (by rw [hfront]; exact hbeyond), hfront,
              List.getElem?_drop]
            congr 1
            omega
        unfold marked
        rw [hget', decide_eq_false hne, Bool.not_false, Bool.and_true]

end Marks

section Searching

variable {b n : ℕ} {k : SearchMeta} {regions : List Region} {bigEndian : Bool}

/-- What the cheat manager has of a hunt. -/
structure Tracks (b n : ℕ) (regions : List Region) (bigEndian : Bool) (h : Hunt)
    (s : CheatManager) : Prop where
  nonempty : regions ≠ []
  holds : Holds s regions
  total : s.totalMemorySize = n
  bits : s.searchBitSize = b
  endian : s.bigEndian = bigEndian
  marks : ∃ buf, s.matchBuf = some buf ∧ buf.length = n ∧
    (itemsOf (cheatManagerSetupSearchMeta b) n).filter
      (marked (cheatManagerSetupSearchMeta b) buf) = h.candidates
  previous : s.prevMemoryBuf = some h.previous ∧ h.previous.length = n
  count : s.numMatches = h.candidates.length

/-- The counter is the number of marks, at every point of a search. -/
def Counted (k : SearchMeta) (n : ℕ) (w : Sweep) : Prop :=
  w.buf.length = n ∧ w.numMatches = ((itemsOf k n).filter (marked k w.buf)).length

theorem isMatch_eq (s : CheatManager) (searchType : CheatSearchType) (now before : UInt32) :
    isMatch s searchType now before = decide (Satisfies searchType
      ⟨s.searchExactValue, s.searchEqplusValue, s.searchEqminusValue⟩ now before) := by
  cases searchType with
  | neq => exact Bool.eq_iff_iff.mpr (bne_iff_ne.trans decide_eq_true_iff.symm)
  | _ => rfl

/-- A comparison of one group takes its mark unless it is met. -/
theorem searchPart_spec (hb : b ≤ 5) (hk : k = cheatManagerSetupSearchMeta b)
    (haligned : k.bytesPerItem ∣ n) (s : CheatManager) (searchType : CheatSearchType)
    {item : Item} (hitem : item ∈ itemsOf k n) (currVal prevVal : UInt32) {w : Sweep}
    (hw : Counted k n w) :
    ∃ w', searchPart s k searchType item.1 currVal prevVal w item.2 = some w' ∧
      Counted k n w' ∧
      ∀ j ∈ itemsOf k n, marked k w'.buf j = (marked k w.buf j && (!decide (j = item) ||
        isMatch s searchType (k.subval currVal item.2) (k.subval prevVal item.2))) := by
  have hpos : 0 < k.bytesPerItem := hk ▸ bytesPerItem_pos b
  obtain ⟨-, hlt, -⟩ := (mem_itemsOf hpos).mp hitem
  have hin : item.1 < w.buf.length := lt_of_lt_of_eq hlt hw.1.symm
  have hget : w.buf[item.1]? = some w.buf[item.1] := List.getElem?_eq_getElem hin
  have hmarked := marked_of_get (k := k) hget
  unfold searchPart
  rw [hget, Option.bind_some]
  by_cases hmark : 0 < w.buf[item.1] &&& k.group item.2
  · rw [if_pos hmark]
    by_cases hmatch : isMatch s searchType (k.subval currVal item.2)
        (k.subval prevVal item.2) = true
    · rw [if_pos hmatch, hmatch]
      refine ⟨w, rfl, hw, ?_⟩
      intro j _
      rw [Bool.or_true, Bool.and_true]
    · rw [if_neg hmatch, Bool.eq_false_iff.mpr hmatch]
      obtain ⟨buf', hbuf', hlength', hmarks'⟩ := unmark_spec hb hk haligned hw.1 hitem
      rw [hbuf']
      refine ⟨_, rfl, ⟨hlength', ?_⟩, ?_⟩
      · change w.numMatches - 1 = _
        rw [hw.2, ← length_filter_unmark (nodup_itemsOf hpos) hitem
          (hmarked.trans (decide_eq_true hmark))]
        exact congrArg List.length (List.filter_congr fun j hj => (hmarks' j hj).symm)
      · intro j hj
        rw [Bool.or_false]
        exact hmarks' j hj
  · rw [if_neg hmark]
    refine ⟨w, rfl, hw, ?_⟩
    intro j _
    by_cases hj : j = item
    · rw [hj, hmarked, decide_eq_false hmark]
      rfl
    · rw [decide_eq_false hj, Bool.not_false, Bool.true_or, Bool.and_true]

/-- What the comparison of a search says about an item. -/
def kept (s : CheatManager) (k : SearchMeta) (searchType : CheatSearchType)
    (now before : List UInt8) (item : Item) : Bool :=
  isMatch s searchType (valueOf k s.bigEndian now item) (valueOf k s.bigEndian before item)

theorem searchItem_spec (hb : b ≤ 5) (hk : k = cheatManagerSetupSearchMeta b)
    {s : CheatManager} (hholds : Holds s regions) (hn : totalLength regions = n)
    (hsmall : n < 2 ^ 32) (haligned : ∀ r ∈ regions, k.bytesPerItem ∣ r.len)
    {before : List UInt8} (hprev : s.prevMemoryBuf = some before) (hlength : before.length = n)
    (searchType : CheatSearchType) (m : Snapshot) {idx : ℕ} (hidx : idx ∈ starts k n) {w : Sweep}
    (hw : Counted k n w) :
    ∃ w', searchItem s k searchType m w idx = some w' ∧ Counted k n w' ∧
      ∀ j ∈ itemsOf k n, marked k w'.buf j = (marked k w.buf j && (!decide (j.1 = idx) ||
        kept s k searchType (concat m regions) before j)) := by
  have hpos : 0 < k.bytesPerItem := hk ▸ bytesPerItem_pos b
  have hdvdAll : k.bytesPerItem ∣ n := hn ▸ dvd_totalLength haligned
  obtain ⟨hdvd, hlt⟩ := (mem_starts hpos).mp hidx
  obtain ⟨offset, curr', htranslate, hcurr⟩ := currValue_spec (m := m) hholds (hn.symm ▸ hsmall)
    hpos haligned hdvd (hn.symm ▸ hlt) w.curr
  have hends : idx + k.bytesPerItem ≤ before.length := hlength ▸ item_ends hdvd hdvdAll hlt
  have hprevValue : prevValue s k.bytesPerItem idx =
      some (itemValue s.bigEndian ((before.drop idx).take k.bytesPerItem)) := by
    unfold prevValue
    rw [hprev, Option.bind_some, peeks_of_le hends]
    rfl
  unfold searchItem
  rw [htranslate]
  dsimp only
  rw [hcurr, Option.bind_some, hprevValue, Option.bind_some]
  have hround : ∀ part ∈ List.range (8 / k.bits), ∀ w, Counted k n w →
      ∃ w', searchPart s k searchType idx
          (itemValue s.bigEndian (((concat m regions).drop idx).take k.bytesPerItem))
          (itemValue s.bigEndian ((before.drop idx).take k.bytesPerItem)) w part = some w' ∧
        Counted k n w' ∧ ∀ j, j ∈ itemsOf k n → marked k w'.buf j =
          (marked k w.buf j && (!decide (j = (idx, part)) ||
            kept s k searchType (concat m regions) before j)) := by
    intro part hpart w hw
    have hitem : (idx, part) ∈ itemsOf k n :=
      (mem_itemsOf hpos).mpr ⟨hdvd, hlt, List.mem_range.mp hpart⟩
    obtain ⟨w', hw'eq, hw', hmarks⟩ :=
      searchPart_spec hb hk hdvdAll s searchType hitem _ _ hw
    refine ⟨w', hw'eq, hw', ?_⟩
    intro j hj
    rw [hmarks j hj]
    by_cases hsame : j = (idx, part)
    · rw [hsame]
      rfl
    · rw [decide_eq_false hsame, Bool.not_false, Bool.true_or, Bool.true_or]
  obtain ⟨w', hfold, hw', hmarks⟩ := foldlM_swept (fun w => marked k w.buf)
    (fun part j => decide (j = (idx, part))) (kept s k searchType (concat m regions) before)
    (Counted k n) (fun j => j ∈ itemsOf k n) hround (s := { w with curr := curr' }) hw
  refine ⟨w', hfold, hw', ?_⟩
  intro j hj
  have hmine : (List.range (8 / k.bits)).any (fun part => decide (j = (idx, part))) =
      decide (j.1 = idx) := by
    obtain ⟨-, -, hpart⟩ := (mem_itemsOf hpos).mp hj
    rw [Bool.eq_iff_iff, List.any_eq_true, decide_eq_true_eq]
    constructor
    · rintro ⟨part, -, hpart⟩
      exact congrArg Prod.fst (of_decide_eq_true hpart)
    · rintro rfl
      exact ⟨j.2, List.mem_range.mpr hpart, decide_eq_true rfl⟩
  rw [hmarks j hj, hmine]

/-- A search keeps the candidates that meet its comparison. -/
theorem cheatManagerSearch_tracks (hb : b ≤ 5) (hn : totalLength regions = n)
    (hsmall : n < 2 ^ 29)
    (haligned : ∀ r ∈ regions, (cheatManagerSetupSearchMeta b).bytesPerItem ∣ r.len)
    {h : Hunt} {s : CheatManager} (ht : Tracks b n regions bigEndian h s)
    (searchType : CheatSearchType) (o : Operands) (m : Snapshot) :
    ∃ s', step s (.search searchType o m) = some s' ∧
      Tracks b n regions bigEndian (h.step (cheatManagerSetupSearchMeta b) bigEndian regions
        (.search searchType o m)) s' := by
  set k := cheatManagerSetupSearchMeta b with hk
  have hpos : 0 < k.bytesPerItem := bytesPerItem_pos b
  set s₁ : CheatManager := { s with
    searchExactValue := o.exactValue
    searchEqplusValue := o.eqplusValue
    searchEqminusValue := o.eqminusValue } with hs₁
  have hholds : Holds s₁ regions := ⟨ht.holds.list, ht.holds.sizes⟩
  obtain ⟨buf, hbuf, hlength, hcandidates⟩ := ht.marks
  obtain ⟨hprevious, hpreviousLength⟩ := ht.previous
  have hcounted : Counted k n ⟨buf, s.numMatches, s.currMemoryBuf⟩ :=
    ⟨hlength, by rw [ht.count, ← hcandidates]⟩
  have hround : ∀ idx ∈ starts k n, ∀ w, Counted k n w →
      ∃ w', searchItem s₁ k searchType m w idx = some w' ∧ Counted k n w' ∧
        ∀ j, j ∈ itemsOf k n → marked k w'.buf j = (marked k w.buf j &&
          (!decide (j.1 = idx) || kept s₁ k searchType (concat m regions) h.previous j)) := by
    intro idx hidx w hw
    exact searchItem_spec hb hk hholds hn (by omega) haligned hprevious hpreviousLength searchType
      m hidx hw
  obtain ⟨w', hfold, hw', hmarks⟩ := foldlM_swept (fun w => marked k w.buf)
    (fun idx j => decide (j.1 = idx)) (kept s₁ k searchType (concat m regions) h.previous)
    (Counted k n) (fun j => j ∈ itemsOf k n) hround hcounted
  have haddresses : addresses s₁ k 0 = starts k n := by
    unfold addresses starts
    change List.range' 0 ((s.totalMemorySize - 0 + k.bytesPerItem - 1) / k.bytesPerItem) _ = _
    rw [ht.total, Nat.sub_zero]
  have hcopy : copyRegions m regions (regions.map fun r => r.len % 2 ^ 32) 0 h.previous =
      some (concat m regions) := by
    rw [copyRegions_spec (by rw [hpreviousLength, hn, Nat.zero_add]) (by omega), List.take_zero,
      List.nil_append]
  have hsearch : step s (.search searchType o m) = some { s₁ with
      prevMemoryBuf := some (concat m regions)
      matchBuf := some w'.buf
      numMatches := w'.numMatches } := by
    unfold step
    dsimp only
    rw [← hs₁]
    unfold cheatManagerSearch
    rw [if_neg (by rw [hholds.list]; exact ht.nonempty)]
    have hbits : s₁.searchBitSize = b := ht.bits
    have hbuf₁ : s₁.matchBuf = some buf := hbuf
    have hprev₁ : s₁.prevMemoryBuf = some h.previous := hprevious
    rw [hbits, ← hk, hbuf₁]
    dsimp only
    rw [Option.bind_some, haddresses, hprev₁, hholds.list, hholds.sizes, hfold,
      Option.bind_some, Option.bind_some, hcopy]
    rfl
  have hleft : (itemsOf k n).filter (marked k w'.buf) = (h.step k bigEndian regions
      (.search searchType o m)).candidates := by
    unfold Hunt.step
    dsimp only
    rw [← hcandidates, List.filter_filter]
    apply List.filter_congr
    intro j hj
    have hmine : (starts k n).any (fun idx => decide (j.1 = idx)) = true := by
      obtain ⟨hdvd, hlt, -⟩ := (mem_itemsOf hpos).mp hj
      exact List.any_eq_true.mpr ⟨j.1, (mem_starts hpos).mpr ⟨hdvd, hlt⟩, decide_eq_true rfl⟩
    rw [hmarks j hj, hmine, Bool.not_true, Bool.false_or, Bool.and_comm]
    unfold kept
    rw [isMatch_eq]
    have hendian : s₁.bigEndian = bigEndian := ht.endian
    rw [hendian]
  refine ⟨_, hsearch, ht.nonempty, ⟨hholds.list, hholds.sizes⟩, ht.total, ht.bits, ht.endian,
    ?_, ?_, ?_⟩
  · exact ⟨w'.buf, rfl, hw'.1, hleft⟩
  · exact ⟨rfl, (length_concat m regions).trans hn⟩
  · exact hw'.2.trans (congrArg List.length hleft)

end Searching

section Deleting

variable {b n : ℕ} {k : SearchMeta} {regions : List Region} {bigEndian : Bool}

def groupMarked (k : SearchMeta) (byte : UInt8) (part : ℕ) : Bool :=
  decide (0 < byte &&& k.group part)

/-- Looking through the groups of an item finds the match that is looked for, or counts those it
has passed. -/
theorem lookParts_spec (byte : UInt8) {target seen : ℕ} (hseen : seen ≤ target)
    (parts : List ℕ) :
    lookParts k byte target parts seen =
      match (parts.filter (groupMarked k byte))[target - seen]? with
      | some part => .here part
      | none => .on (seen + (parts.filter (groupMarked k byte)).length) := by
  induction parts generalizing seen with
  | nil => rfl
  | cons part parts ih =>
    unfold lookParts
    by_cases hmark : 0 < byte &&& k.group part
    · have hmarked : groupMarked k byte part = true := decide_eq_true hmark
      rw [if_pos hmark, List.filter_cons_of_pos hmarked]
      by_cases heq : target = seen
      · rw [if_pos heq, heq, Nat.sub_self]
        rfl
      · obtain ⟨d, hd⟩ : ∃ d, target - seen = d + 1 := ⟨target - seen - 1, by omega⟩
        have hd' : target - (seen + 1) = d := by omega
        rw [if_neg heq, ih (by omega), hd, hd', List.getElem?_cons_succ, List.length_cons]
        split
        · rfl
        · congr 1
          omega
    · have hmarked : ¬ groupMarked k byte part = true := fun h => hmark (of_decide_eq_true h)
      rw [if_neg hmark, List.filter_cons_of_neg hmarked]
      exact ih hseen

/-- The marked items at the addresses of `l`. -/
def markedFrom (k : SearchMeta) (buf : List UInt8) (l : List ℕ) : List Item :=
  (l.flatMap fun idx => (List.range (8 / k.bits)).map fun part => (idx, part)).filter
    (marked k buf)

theorem markedFrom_cons (buf : List UInt8) {idx : ℕ} {byte : UInt8}
    (hbyte : buf[idx]? = some byte) (l : List ℕ) :
    markedFrom k buf (idx :: l) =
      ((List.range (8 / k.bits)).filter (groupMarked k byte)).map (fun part => (idx, part)) ++
        markedFrom k buf l := by
  unfold markedFrom
  rw [List.flatMap_cons, List.filter_append, List.filter_map]
  congr 2
  apply List.filter_congr
  intro part _
  exact @marked_of_get k buf (idx, part) byte hbyte

/-- Looking through the items finds the match that is looked for. -/
theorem matchLoop_delete (hk : k = cheatManagerSetupSearchMeta b)
    {s : CheatManager} (hholds : Holds s regions) (hn : totalLength regions = n)
    (hsmall : n < 2 ^ 32) (haligned : ∀ r ∈ regions, k.bytesPerItem ∣ r.len)
    {before buf : List UInt8} (hprev : s.prevMemoryBuf = some before)
    (hlength : before.length = n) (hbuf : s.matchBuf = some buf) (hbufLength : buf.length = n)
    (m : Snapshot) {l : List ℕ} (hl : ∀ idx ∈ l, idx ∈ starts k n) (curr : Option Region)
    {target seen : ℕ} (hseen : seen ≤ target) :
    matchLoop .delete k target m s l curr seen =
      match (markedFrom k buf l)[target - seen]? with
      | none => some (none, s)
      | some item => (k.unmark buf item.1 item.2).map fun buf =>
        (none, { s with matchBuf := some buf, numMatches := s.numMatches - 1 }) := by
  have hpos : 0 < k.bytesPerItem := hk ▸ bytesPerItem_pos b
  have hdvdAll : k.bytesPerItem ∣ n := hn ▸ dvd_totalLength haligned
  induction l generalizing curr seen with
  | nil => rfl
  | cons idx l ih =>
    obtain ⟨hdvd, hlt⟩ := (mem_starts hpos).mp (hl idx List.mem_cons_self)
    obtain ⟨offset, curr', htranslate, hcurr⟩ := currValue_spec (m := m) hholds
      (hn.symm ▸ hsmall) hpos haligned hdvd (hn.symm ▸ hlt) curr
    have hends : idx + k.bytesPerItem ≤ before.length := hlength ▸ item_ends hdvd hdvdAll hlt
    have hprevValue : prevValue s k.bytesPerItem idx =
        some (itemValue s.bigEndian ((before.drop idx).take k.bytesPerItem)) := by
      unfold prevValue
      rw [hprev, Option.bind_some, peeks_of_le hends]
      rfl
    have hin : idx < buf.length := lt_of_lt_of_eq hlt hbufLength.symm
    have hget : buf[idx]? = some buf[idx] := List.getElem?_eq_getElem hin
    rw [matchLoop, htranslate]
    dsimp only
    rw [hcurr, Option.bind_some, hprev]
    dsimp only
    rw [← hprev, hprevValue, Option.bind_some, if_neg (by decide), hbuf, Option.bind_some, hget,
      Option.bind_some, lookParts_spec _ hseen, markedFrom_cons buf hget]
    set here := (List.range (8 / k.bits)).filter (groupMarked k buf[idx]) with hhere
    rcases hfound : here[target - seen]? with _ | part
    · have hbeyond : here.length ≤ target - seen := List.getElem?_eq_none_iff.mp hfound
      dsimp only
      rw [ih (fun i hi => hl i (List.mem_cons_of_mem idx hi)) curr' (by omega),
        List.getElem?_append_right (by rw [List.length_map]; exact hbeyond), List.length_map,
        Nat.sub_sub]
    · have hinside : target - seen < here.length :=
        (List.getElem?_eq_some_iff.mp hfound).1
      rw [List.getElem?_append_left (by rw [List.length_map]; exact hinside),
        List.getElem?_map, hfound]
      rfl

theorem cheatManagerMatchAction_tracks (hb : b ≤ 5) (hn : totalLength regions = n)
    (hsmall : n < 2 ^ 29)
    (haligned : ∀ r ∈ regions, (cheatManagerSetupSearchMeta b).bytesPerItem ∣ r.len)
    {h : Hunt} {s : CheatManager} (ht : Tracks b n regions bigEndian h s) (target : ℕ)
    (m : Snapshot) :
    ∃ s', step s (.delete target m) = some s' ∧
      Tracks b n regions bigEndian (h.step (cheatManagerSetupSearchMeta b) bigEndian regions
        (.delete target m)) s' := by
  set k := cheatManagerSetupSearchMeta b with hk
  have hpos : 0 < k.bytesPerItem := bytesPerItem_pos b
  obtain ⟨buf, hbuf, hlength, hcandidates⟩ := ht.marks
  rw [← hk] at hcandidates
  have hall : markedFrom k buf (starts k n) = h.candidates := hcandidates
  -- the counter is a number of items, and there are less than 2 ^ 32
  have hcountSmall : s.numMatches < 2 ^ 32 := by
    rw [ht.count, ← hcandidates]
    have hle := List.length_filter_le (marked k buf) (itemsOf k n)
    have hitems := length_itemsOf_le (n := n) hpos
    omega
  have hloop : (cheatManagerMatchAction .delete target 0 m s).map Prod.snd =
      match h.candidates[target]? with
      | none => some s
      | some item => (k.unmark buf item.1 item.2).map fun buf =>
        { s with matchBuf := some buf, numMatches := s.numMatches - 1 } := by
    unfold cheatManagerMatchAction
    by_cases hfar : (s.numMatches + (2 ^ 32 - 1)) % 2 ^ 32 < target
    · rw [if_pos hfar]
      have hnone : h.candidates[target]? = none := by
        rw [List.getElem?_eq_none_iff, ← ht.count]
        omega
      rw [hnone]
      rfl
    · rw [if_neg hfar, if_neg (by rw [ht.holds.list]; exact ht.nonempty)]
      have haddresses : addresses s k 0 = starts k n := by
        unfold addresses starts
        rw [ht.total, Nat.sub_zero]
      have hmeta : cheatManagerSetupSearchMeta s.searchBitSize = k := by rw [ht.bits]
      rw [hmeta, if_neg (by decide)]
      dsimp only
      rw [haddresses, matchLoop_delete hk ht.holds hn (by omega) haligned ht.previous.1
        ht.previous.2 hbuf hlength m (fun _ hidx => hidx) s.currMemoryBuf (Nat.zero_le target),
        Nat.sub_zero, hall]
      rcases h.candidates[target]? with _ | item
      · rfl
      · dsimp only
        rw [Option.map_map]
        rfl
  unfold step
  dsimp only
  rw [hloop]
  rcases hfound : h.candidates[target]? with _ | item
  · refine ⟨s, rfl, ?_⟩
    have hsame : h.candidates.eraseIdx target = h.candidates :=
      List.eraseIdx_of_length_le (List.getElem?_eq_none_iff.mp hfound)
    unfold Hunt.step
    dsimp only
    rw [hsame]
    exact ht
  · obtain ⟨htarget, -⟩ := List.getElem?_eq_some_iff.mp hfound
    have hmem : item ∈ h.candidates := List.mem_of_getElem? hfound
    have hitem : item ∈ itemsOf k n ∧ marked k buf item = true := by
      rw [← hcandidates] at hmem
      exact List.mem_filter.mp hmem
    obtain ⟨buf', hbuf', hlength', hmarks'⟩ :=
      unmark_spec hb hk (hn ▸ dvd_totalLength haligned) hlength hitem.1
    have hleft : (itemsOf k n).filter (marked k buf') = h.candidates.eraseIdx target := by
      rw [← hcandidates] at hfound ⊢
      rw [← filter_unmark_eraseIdx (nodup_itemsOf hpos) hfound]
      exact List.filter_congr fun j hj => hmarks' j hj
    dsimp only
    rw [hbuf']
    refine ⟨_, rfl, ht.nonempty, ⟨ht.holds.list, ht.holds.sizes⟩, ht.total, ht.bits,
      ht.endian, ?_, ht.previous, ?_⟩
    · exact ⟨buf', rfl, hlength', hleft⟩
    · change s.numMatches - 1 = (h.candidates.eraseIdx target).length
      rw [ht.count, List.length_eraseIdx_of_lt htarget]

end Deleting

end RetroArch.Cheats
