/- Merging the states of the clients of a device: the votes with their table, and the axes. -/

import Mathlib.Algebra.BigOperators.Ring.List
import Mathlib.Algebra.Order.BigOperators.Group.List
import Mathlib.Data.List.ProdSigma
import Mathlib.Data.Nat.Prime.Basic
import RetroArch.Netplay.ReadBack

namespace RetroArch.Netplay.Merging

open Library.Bits Delta State Resolve Controls ReadBack

variable {σ : Type}

/-- The words of `struct vote_count votes[3]`. -/
def votesLength : ℕ := 3

/-- The counts are `uint16_t`, of 32 clients at most. -/
abbrev Votes := ℕ → ℕ → ℕ

/-- `votes[word].votes[bit]++`; `none` is an access outside the table. -/
def bumpVote (votes : Votes) (word bit : ℕ) : Option Votes :=
  if word < votesLength then
    some fun w b => if w = word ∧ b = bit then votes w b + 1 else votes w b
  else none

def readVote (votes : Votes) (word bit : ℕ) : Option ℕ :=
  if word < votesLength then some (votes word bit) else none

/-- The words and their bits, in the order of the loops. -/
def cells (size : ℕ) : List (ℕ × ℕ) := (List.range size).product (List.range 32)

/-- `word & (1 << bit)` of a bit that is digital. -/
def marked (digital : List UInt32) (s : InputState) (word bit : ℕ) : Bool :=
  (digital.getD word 0).toNat.testBit bit && (s.data.getD word 0).toNat.testBit bit

/-- The bits of a client. -/
def countVotes (digital : List UInt32) (size : ℕ) (votes : Votes) (s : InputState) : Option Votes :=
  (cells size).foldlM (fun votes c =>
    if marked digital s c.1 c.2 then bumpVote votes c.1 c.2 else some votes) votes

/-- "Now count all the bits." -/
def tallyVotes (votes : Votes) (clientCount : ℕ) (data : List UInt32) : Option (List UInt32) :=
  (cells data.length).foldlM (fun data c =>
    (readVote votes c.1 c.2).map fun count =>
      if clientCount < count then data.modify c.1 fun w => w ||| UInt32.ofNat (2 ^ c.2) else data)
    data

/-- `netplay_merge_digital` with its table. -/
def mergeDigital (np : NetplayT σ) (data : List UInt32) (simframe : DeltaFrame σ)
    (device clients : ℕ) (digital : List UInt32) : Option (List UInt32) :=
  let shareMode := np.roster.deviceShareModes device &&& NETPLAY_SHARE_DIGITAL_BITS
  let states := mergedStates np simframe device clients data.length
  if shareMode = NETPLAY_SHARE_DIGITAL_VOTE then
    (states.foldlM (countVotes digital data.length) fun _ _ => 0).bind fun votes =>
      tallyVotes votes (states.length / 2) data
  else some (netplayMergeDigital np data simframe device clients digital)

theorem mem_cells {size word bit : ℕ} : (word, bit) ∈ cells size ↔ word < size ∧ bit < 32 := by
  rw [cells, List.pair_mem_product, List.mem_range, List.mem_range]

theorem nodup_cells (size : ℕ) : (cells size).Nodup := by
  apply List.Nodup.product
  · exact List.nodup_range
  · exact List.nodup_range

theorem foldlM_bump (digital : List UInt32) (s : InputState) {cs : List (ℕ × ℕ)} (hcs : cs.Nodup)
    (hin : ∀ c ∈ cs, c.1 < votesLength) (votes : Votes) :
    cs.foldlM (fun votes c =>
      if marked digital s c.1 c.2 then bumpVote votes c.1 c.2 else some votes) votes =
      some fun w b => votes w b + if (w, b) ∈ cs ∧ marked digital s w b then 1 else 0 := by
  induction cs generalizing votes with
  | nil => simp
  | cons c cs ih =>
    obtain ⟨hnot, hnodup⟩ := List.nodup_cons.mp hcs
    have hrest := ih hnodup fun c' hc' => hin c' (List.mem_cons_of_mem c hc')
    rw [List.foldlM_cons]
    by_cases hmarked : marked digital s c.1 c.2
    · rw [if_pos hmarked, bumpVote, if_pos (hin c List.mem_cons_self)]
      refine (hrest _).trans (congrArg some ?_)
      funext w b
      by_cases hsame : w = c.1 ∧ b = c.2
      · obtain ⟨rfl, rfl⟩ := hsame
        simp [hnot, hmarked]
      · have hne : (w, b) ≠ c := fun heq => hsame ⟨congrArg Prod.fst heq, congrArg Prod.snd heq⟩
        simp [hsame, hne]
    · rw [if_neg hmarked]
      refine (hrest _).trans (congrArg some ?_)
      funext w b
      by_cases hsame : (w, b) = c
      · subst hsame
        simp [hmarked]
      · simp [hsame]

theorem countVotes_eq (digital : List UInt32) {size : ℕ} (hsize : size ≤ votesLength)
    (states : List InputState) (votes : Votes) :
    states.foldlM (countVotes digital size) votes = some fun w b =>
      votes w b + if (w, b) ∈ cells size then states.countP (marked digital · w b) else 0 := by
  induction states generalizing votes with
  | nil => simp
  | cons s states ih =>
    have hin : ∀ c ∈ cells size, c.1 < votesLength :=
      fun c hc => lt_of_lt_of_le (mem_cells.mp hc).1 hsize
    rw [List.foldlM_cons, countVotes, foldlM_bump digital s (nodup_cells size) hin]
    refine (ih _).trans (congrArg some ?_)
    funext w b
    by_cases hcell : (w, b) ∈ cells size
    · rw [if_pos hcell, if_pos hcell, List.countP_cons]
      simp only [hcell, true_and]
      omega
    · simp [hcell]

theorem testBit_modify (data : List UInt32) {word bit : ℕ} (hword : word < data.length)
    (hbit : bit < 32) {w b : ℕ} (hb : b < 32) :
    ((data.modify word fun x => x ||| UInt32.ofNat (2 ^ bit)).getD w 0).toNat.testBit b =
      ((data.getD w 0).toNat.testBit b || decide ((w, b) = (word, bit))) := by
  have hkey := testBit_key data hword hbit (32 * w + b)
  rw [show (32 * w + b) / 32 = w by omega, show (32 * w + b) % 32 = b by omega] at hkey
  rw [hkey]
  congr 1
  apply decide_eq_decide.mpr
  rw [Prod.mk.injEq]
  omega

/-- In the table the bits with the votes are set. -/
theorem foldlM_tally (votes : Votes) (clientCount : ℕ) {cs : List (ℕ × ℕ)} {data : List UInt32}
    (hcs : ∀ c ∈ cs, c.1 < data.length ∧ c.2 < 32) (hin : ∀ c ∈ cs, c.1 < votesLength) :
    ∃ data', cs.foldlM (fun data c =>
        (readVote votes c.1 c.2).map fun count =>
          if clientCount < count then data.modify c.1 fun w => w ||| UInt32.ofNat (2 ^ c.2)
          else data) data = some data' ∧ data'.length = data.length ∧
      ∀ w b, b < 32 → (data'.getD w 0).toNat.testBit b =
        ((data.getD w 0).toNat.testBit b ||
          decide ((w, b) ∈ cs) && decide (clientCount < votes w b)) := by
  induction cs generalizing data with
  | nil => exact ⟨data, rfl, rfl, fun w b _ => by simp⟩
  | cons c cs ih =>
    obtain ⟨hword, hbit⟩ := hcs c List.mem_cons_self
    have hrest := fun c' hc' => hcs c' (List.mem_cons_of_mem c hc')
    have hinrest := fun c' hc' => hin c' (List.mem_cons_of_mem c hc')
    rw [List.foldlM_cons, readVote, if_pos (hin c List.mem_cons_self)]
    by_cases hwon : clientCount < votes c.1 c.2
    · obtain ⟨data', hrun, hlen, hbits⟩ := @ih
        (data.modify c.1 fun w => w ||| UInt32.ofNat (2 ^ c.2))
        (by rw [List.length_modify]; exact hrest) hinrest
      rw [Option.map_some, if_pos hwon]
      refine ⟨data', hrun, hlen.trans (List.length_modify ..), fun w b hb => ?_⟩
      rw [hbits w b hb, testBit_modify data hword hbit hb]
      by_cases hsame : (w, b) = c
      · subst hsame
        simp [hwon]
      · simp [hsame]
    · obtain ⟨data', hrun, hlen, hbits⟩ := ih hrest hinrest
      rw [Option.map_some, if_neg hwon]
      refine ⟨data', hrun, hlen, fun w b hb => ?_⟩
      rw [hbits w b hb]
      by_cases hsame : (w, b) = c
      · subst hsame
        simp [hwon]
      · simp [hsame]

theorem tallyVotes_outside (votes : Votes) (clientCount : ℕ) {data : List UInt32}
    (h : votesLength < data.length) : tallyVotes votes clientCount data = none := by
  have hmem : (votesLength, 0) ∈ cells data.length := mem_cells.mpr ⟨h, by decide⟩
  obtain ⟨front, rest, hsplit⟩ := List.append_of_mem hmem
  rw [tallyVotes, hsplit, List.foldlM_append]
  cases hfront : front.foldlM (fun data c =>
      (readVote votes c.1 c.2).map fun count =>
        if clientCount < count then data.modify c.1 fun w => w ||| UInt32.ofNat (2 ^ c.2)
        else data) data with
  | none => rfl
  | some data' => rfl

section Bits

theorem eq_of_bits {l l' : List UInt32} (hlen : l.length = l'.length)
    (hbits : ∀ w < l.length, ∀ b < 32,
      (l.getD w 0).toNat.testBit b = (l'.getD w 0).toNat.testBit b) : l = l' := by
  apply List.ext_getElem hlen
  intro w hw hw'
  apply UInt32.toNat_inj.mp
  apply Nat.eq_of_testBit_eq
  intro b
  by_cases hb : b < 32
  · have hbit := hbits w hw b hb
    rw [List.getD_eq_getElem _ _ hw, List.getD_eq_getElem _ _ hw'] at hbit
    exact hbit
  · have hpow : 2 ^ 32 ≤ 2 ^ b := Nat.pow_le_pow_right (by decide) (Nat.le_of_not_lt hb)
    rw [Nat.testBit_lt_two_pow (lt_of_lt_of_le l[w].toNat_lt hpow),
      Nat.testBit_lt_two_pow (lt_of_lt_of_le l'[w].toNat_lt hpow)]

theorem getD_mapIdx (f : ℕ → UInt32 → UInt32) {data : List UInt32} {w : ℕ} (hw : w < data.length) :
    (data.mapIdx f).getD w 0 = f w (data.getD w 0) := by
  rw [List.getD_eq_getElem _ _ (by rw [List.length_mapIdx]; exact hw), List.getElem_mapIdx,
    List.getD_eq_getElem _ _ hw]

/-- The clients that are merged and have a state for the frame in which something holds. -/
def countClients (np : NetplayT σ) (simframe : DeltaFrame σ) (device clients size : ℕ)
    (p : InputState → Bool) : ℕ :=
  (List.range MAX_CLIENTS).countP fun client =>
    (realClients clients (simframe.realInput device) size).testBit client &&
      (netplayDeviceClientState np simframe device client).any p

theorem countP_mergedStates (np : NetplayT σ) (simframe : DeltaFrame σ)
    (device clients size : ℕ) (p : InputState → Bool) :
    (mergedStates np simframe device clients size).countP p =
      countClients np simframe device clients size p := by
  rw [mergedStates, List.countP_filterMap, countClients]
  congr 1
  funext client
  cases (realClients clients (simframe.realInput device) size).testBit client with
  | false => rfl
  | true =>
    rw [if_pos rfl, Bool.true_and]
    cases netplayDeviceClientState np simframe device client <;> rfl

/-- When a bit is set, of that many clients with a state and that many that set it. -/
def Wins (shareMode : UInt8) (states votes : ℕ) : Prop :=
  if shareMode = NETPLAY_SHARE_DIGITAL_VOTE then states < 2 * votes
  else if shareMode = NETPLAY_SHARE_DIGITAL_XOR then votes % 2 = 1
  else 0 < votes

theorem testBit_part (digital : List UInt32) (s : InputState) (w b : ℕ) :
    (s.data.getD w 0 &&& digital.getD w 0).toNat.testBit b = marked digital s w b := by
  rw [UInt32.toNat_and, Nat.testBit_and, marked, Bool.and_comm]

theorem testBit_foldl_or (digital : List UInt32) (states : List InputState) {data : List UInt32}
    {w b : ℕ} (hw : w < data.length) :
    ((states.foldl (fun data s => data.mapIdx fun word x =>
      x ||| s.data.getD word 0 &&& digital.getD word 0) data).getD w 0).toNat.testBit b =
      ((data.getD w 0).toNat.testBit b ||
        decide (0 < states.countP (marked digital · w b))) := by
  induction states generalizing data with
  | nil => simp
  | cons s states ih =>
    rw [List.foldl_cons, ih (by rw [List.length_mapIdx]; exact hw), getD_mapIdx _ hw,
      UInt32.toNat_or, Nat.testBit_or, testBit_part, List.countP_cons, Bool.or_assoc]
    congr 1
    cases marked digital s w b with
    | false => simp
    | true => simp

theorem testBit_foldl_xor (digital : List UInt32) (states : List InputState) {data : List UInt32}
    {w b : ℕ} (hw : w < data.length) :
    ((states.foldl (fun data s => data.mapIdx fun word x =>
      x ^^^ (s.data.getD word 0 &&& digital.getD word 0)) data).getD w 0).toNat.testBit b =
      ((data.getD w 0).toNat.testBit b ^^
        decide (states.countP (marked digital · w b) % 2 = 1)) := by
  induction states generalizing data with
  | nil => simp
  | cons s states ih =>
    rw [List.foldl_cons, ih (by rw [List.length_mapIdx]; exact hw), getD_mapIdx _ hw,
      UInt32.toNat_xor, Nat.testBit_xor, testBit_part, List.countP_cons, Bool.xor_assoc]
    congr 1
    cases marked digital s w b with
    | false => simp
    | true =>
      rcases Nat.mod_two_eq_zero_or_one (states.countP (marked digital · w b)) with h | h
      · simp [h, Nat.add_mod]
      · simp [h, Nat.add_mod]

variable (np : NetplayT σ) (simframe : DeltaFrame σ) (device clients : ℕ) (digital : List UInt32)

/-- The vote of the words, whatever the table. -/
theorem testBit_vote {data : List UInt32}
    (hmode : np.roster.deviceShareModes device &&& NETPLAY_SHARE_DIGITAL_BITS =
      NETPLAY_SHARE_DIGITAL_VOTE) {w b : ℕ} (hw : w < data.length) (hb : b < 32) :
    ((netplayMergeDigital np data simframe device clients digital).getD w 0).toNat.testBit b =
      ((data.getD w 0).toNat.testBit b ||
        decide ((mergedStates np simframe device clients data.length).length / 2 <
          (mergedStates np simframe device clients data.length).countP
            (marked digital · w b))) := by
  rw [netplayMergeDigital]
  dsimp only
  rw [if_pos hmode, getD_mapIdx _ hw, testBit_foldl_set _ (fun i hi => List.mem_range.mp hi)]
  congr 1
  rw [decide_eq_true (List.mem_range.mpr hb), Bool.true_and]
  apply decide_eq_decide.mpr
  cases hdigital : (digital.getD w 0).toNat.testBit b with
  | true =>
    simp only [marked, hdigital, Bool.true_and, true_and]
  | false =>
    simp only [marked, hdigital, Bool.false_and, Bool.false_eq_true, false_and, List.countP_false,
      false_iff]
    exact Nat.not_lt_zero _

theorem mergeDigital_eq {data : List UInt32} (hsize : data.length ≤ votesLength) :
    mergeDigital np data simframe device clients digital =
      some (netplayMergeDigital np data simframe device clients digital) := by
  rw [mergeDigital]
  by_cases hmode : np.roster.deviceShareModes device &&& NETPLAY_SHARE_DIGITAL_BITS =
      NETPLAY_SHARE_DIGITAL_VOTE
  · rw [if_pos hmode, countVotes_eq digital hsize, Option.bind_some, tallyVotes]
    obtain ⟨data', hrun, hlen, hbits⟩ := foldlM_tally
      (fun w b => 0 + if (w, b) ∈ cells data.length then
        (mergedStates np simframe device clients data.length).countP (marked digital · w b) else 0)
      ((mergedStates np simframe device clients data.length).length / 2)
      (fun c hc => mem_cells.mp hc)
      (fun c hc => lt_of_lt_of_le (mem_cells.mp hc).1 hsize)
    refine hrun.trans (congrArg some (eq_of_bits ?_ fun w hw b hb => ?_))
    · rw [hlen, length_netplayMergeDigital]
    · rw [hlen] at hw
      have hcell : (w, b) ∈ cells data.length := mem_cells.mpr ⟨hw, hb⟩
      rw [hbits w b hb, testBit_vote np simframe device clients digital hmode hw hb,
        decide_eq_true hcell, if_pos hcell, Nat.zero_add, Bool.true_and]
  · rw [if_neg hmode]

theorem mergeDigital_outside {data : List UInt32}
    (hmode : np.roster.deviceShareModes device &&& NETPLAY_SHARE_DIGITAL_BITS =
      NETPLAY_SHARE_DIGITAL_VOTE) (hsize : votesLength < data.length) :
    mergeDigital np data simframe device clients digital = none := by
  rw [mergeDigital]
  rw [if_pos hmode]
  cases (mergedStates np simframe device clients data.length).foldlM
      (countVotes digital data.length) fun _ _ => 0 with
  | none => rfl
  | some votes => exact tallyVotes_outside votes _ hsize

theorem netplayMergeDigital_wins {size w b : ℕ} (hw : w < size) (hb : b < 32) :
    ((netplayMergeDigital np (List.replicate size 0) simframe device clients digital).getD w
        0).toNat.testBit b = true ↔
      Wins (np.roster.deviceShareModes device &&& NETPLAY_SHARE_DIGITAL_BITS)
        (mergedStates np simframe device clients size).length
        ((mergedStates np simframe device clients size).countP (marked digital · w b)) := by
  have hzero : ((List.replicate size (0 : UInt32)).getD w 0).toNat.testBit b = false := by
    rw [List.getD_replicate _ hw]
    exact Nat.zero_testBit b
  have hlen : (List.replicate size (0 : UInt32)).length = size := List.length_replicate
  have hw' : w < (List.replicate size (0 : UInt32)).length := hlen.symm ▸ hw
  rw [Wins]
  by_cases hvote : np.roster.deviceShareModes device &&& NETPLAY_SHARE_DIGITAL_BITS =
      NETPLAY_SHARE_DIGITAL_VOTE
  · rw [testBit_vote np simframe device clients digital hvote hw' hb, hzero, hlen, if_pos hvote,
      Bool.false_or, decide_eq_true_iff]
    omega
  · rw [if_neg hvote, netplayMergeDigital]
    dsimp only
    rw [if_neg hvote, hlen]
    by_cases hxor : np.roster.deviceShareModes device &&& NETPLAY_SHARE_DIGITAL_BITS =
        NETPLAY_SHARE_DIGITAL_XOR
    · simp only [if_pos hxor]
      rw [testBit_foldl_xor digital _ hw', hzero, Bool.false_xor, decide_eq_true_iff]
    · simp only [if_neg hxor]
      rw [testBit_foldl_or digital _ hw', hzero, Bool.false_or, decide_eq_true_iff]

end Bits

/-- What is merged from nothing stays in the table of votes, and a digital bit is set as the share
mode says of the clients that have a state. -/
def MergesDigital (np : NetplayT σ) (simframe : DeltaFrame σ) (device clients : ℕ)
    (digital : List UInt32) : Prop :=
  let size := np.expectedInputSize (1 <<< device)
  ∃ data, mergeDigital np (List.replicate size 0) simframe device clients digital = some data ∧
    ∀ word < size, ∀ bit < 32, (digital.getD word 0).toNat.testBit bit = true →
      ((data.getD word 0).toNat.testBit bit = true ↔
        Wins (np.roster.deviceShareModes device &&& NETPLAY_SHARE_DIGITAL_BITS)
          (countClients np simframe device clients size fun _ => true)
          (countClients np simframe device clients size fun s =>
            (s.data.getD word 0).toNat.testBit bit))

/-- Merging is what it should be for just the modes without votes and the devices with at most
three words. -/
theorem mergesDigital_iff (np : NetplayT σ) (simframe : DeltaFrame σ) (device clients : ℕ)
    (digital : List UInt32) :
    MergesDigital np simframe device clients digital ↔
      (np.roster.deviceShareModes device &&& NETPLAY_SHARE_DIGITAL_BITS =
          NETPLAY_SHARE_DIGITAL_VOTE →
        np.expectedInputSize (1 <<< device) ≤ votesLength) := by
  have hlen : (List.replicate (np.expectedInputSize (1 <<< device)) (0 : UInt32)).length =
      np.expectedInputSize (1 <<< device) := List.length_replicate
  constructor
  · rintro ⟨data, hdata, -⟩ hmode
    by_contra hsize
    rw [mergeDigital_outside np simframe device clients digital hmode
      (hlen.symm ▸ Nat.lt_of_not_le hsize)] at hdata
    exact nomatch hdata
  · intro hfits
    refine ⟨netplayMergeDigital np (List.replicate (np.expectedInputSize (1 <<< device)) 0) simframe
      device clients digital, ?_, fun word hword bit hbit hdigital => ?_⟩
    · by_cases hmode : np.roster.deviceShareModes device &&& NETPLAY_SHARE_DIGITAL_BITS =
          NETPLAY_SHARE_DIGITAL_VOTE
      · apply mergeDigital_eq
        rw [hlen]
        exact hfits hmode
      · exact if_neg hmode
    · rw [netplayMergeDigital_wins np simframe device clients digital hword hbit,
        ← countP_mergedStates, ← countP_mergedStates, List.countP_true]
      simp only [marked, hdigital, Bool.true_and]

/-- A session in which a device is shared. -/
def sharing (device : ℕ) (shareMode : UInt8) : NetplayT ℕ :=
  let np := netplayNew idleCore true false 0 false false false [] (fun _ => device) 0
  { np with roster := { np.roster with deviceShareModes := fun _ => shareMode } }

/-- A frame with the real input of the first clients. -/
def sharedFrame (inputs : List (List UInt32)) : DeltaFrame ℕ :=
  { DeltaFrame.zero with
    realInput := fun _ => inputs.mapIdx fun client data => ⟨true, client, data⟩ }

/-- Two clients that vote on a keyboard. -/
theorem keyboard_votes_outside :
    ¬ ∀ (np : NetplayT ℕ) (simframe : DeltaFrame ℕ) (device clients : ℕ),
      MergesDigital np simframe device clients
        (digitalOf (deviceType (np.configDevices device))) := by
  intro h
  obtain ⟨data, hdata, -⟩ := h (sharing RETRO_DEVICE_KEYBOARD NETPLAY_SHARE_DIGITAL_VOTE)
    (sharedFrame [[0, 0, 0, 1, 0], [0, 0, 0, 1, 0]]) 0 3
  rw [mergeDigital_outside _ _ _ _ _ (by decide) (by decide)] at hdata
  exact nomatch hdata

section Analog

theorem analogValue_bounds (data : List UInt32) (word bit : ℕ) :
    -2 ^ 15 ≤ analogValue data word bit ∧ analogValue data word bit < 2 ^ 15 := by
  rw [analogValue]
  split_ifs <;> omega

theorem analogValue_modify {data : List UInt32} {word bit : ℕ} (hword : word < data.length)
    (hbit : bit = 0 ∨ bit = 16) (hclear : analogValue data word bit = 0) (value : ℤ) :
    analogValue (data.modify word fun w =>
      w ||| UInt32.ofNat ((value % 2 ^ 16).toNat * 2 ^ bit)) word bit =
      Int.bmod value (2 ^ 16) := by
  have hpart : (value % 2 ^ 16).toNat < 2 ^ 16 := by omega
  have hlt : (value % 2 ^ 16).toNat * 2 ^ bit < 2 ^ 32 := by
    rcases hbit with rfl | rfl <;> omega
  have hfree : (data.getD word 0).toNat / 2 ^ bit % 2 ^ 16 = 0 := by
    rw [analogValue] at hclear
    split_ifs at hclear <;> omega
  have hget : (data.modify word fun w =>
      w ||| UInt32.ofNat ((value % 2 ^ 16).toNat * 2 ^ bit)).getD word 0 =
      data.getD word 0 ||| UInt32.ofNat ((value % 2 ^ 16).toNat * 2 ^ bit) := by
    rw [List.getD_eq_getElem _ _ (by rw [List.length_modify]; exact hword),
      List.getElem_modify_eq, List.getD_eq_getElem _ _ hword]
  have hhalf : ((data.getD word 0).toNat ||| (value % 2 ^ 16).toNat * 2 ^ bit) / 2 ^ bit % 2 ^ 16 =
      (value % 2 ^ 16).toNat := by
    rw [← Nat.shiftRight_eq_div_pow, Nat.shiftRight_or_distrib, Nat.or_mod_two_pow,
      Nat.shiftRight_eq_div_pow, hfree, Nat.zero_or, Nat.shiftRight_eq_div_pow,
      Nat.mul_div_cancel _ (Nat.two_pow_pos bit), Nat.mod_eq_of_lt hpart]
  rw [analogValue, hget, UInt32.toNat_or, UInt32.toNat_ofNat', Nat.mod_eq_of_lt hlt, hhalf,
    Int.bmod_def]
  split_ifs <;> omega

/-- The larger of two values in size, the positive one of two of the same size. -/
def farther (value newValue : ℤ) : ℤ :=
  if value.natAbs < newValue.natAbs ∨ newValue.natAbs = value.natAbs ∧ value < newValue then
    newValue
  else value

theorem foldl_farther (values : List ℤ) (value : ℤ) :
    (values.foldl farther value = value ∨ values.foldl farther value ∈ values) ∧
      ∀ v ∈ value :: values, v.natAbs ≤ (values.foldl farther value).natAbs := by
  induction values generalizing value with
  | nil => exact ⟨Or.inl rfl, fun v hv => le_of_eq (congrArg Int.natAbs (List.mem_singleton.mp hv))⟩
  | cons newValue values ih =>
    obtain ⟨hone, hall⟩ := ih (farther value newValue)
    have hstep : farther value newValue = value ∨ farther value newValue = newValue := by
      rw [farther]
      split_ifs
      · exact Or.inr rfl
      · exact Or.inl rfl
    have hsize : value.natAbs ≤ (farther value newValue).natAbs ∧
        newValue.natAbs ≤ (farther value newValue).natAbs := by
      rw [farther]
      split_ifs <;> omega
    have hlast := hall _ List.mem_cons_self
    rw [List.foldl_cons]
    constructor
    · rcases hone with hone | hone
      · rcases hstep with hstep | hstep
        · exact Or.inl (hone.trans hstep)
        · exact Or.inr (List.mem_cons.mpr (Or.inl (hone.trans hstep)))
      · exact Or.inr (List.mem_cons_of_mem _ hone)
    · intro v hv
      rcases List.mem_cons.mp hv with rfl | hv
      · exact le_trans hsize.1 hlast
      · rcases List.mem_cons.mp hv with rfl | hv
        · exact le_trans hsize.2 hlast
        · exact hall v (List.mem_cons_of_mem _ hv)

theorem foldl_farther_mem {values : List ℤ} (h : values ≠ []) :
    values.foldl farther 0 ∈ values := by
  obtain ⟨hone, hall⟩ := foldl_farther values 0
  rcases hone with hzero | hmem
  · cases values with
    | nil => exact absurd rfl h
    | cons v values =>
      have hv := hall v (List.mem_cons_of_mem _ List.mem_cons_self)
      rw [hzero, Int.natAbs_zero] at hv
      rw [hzero]
      exact List.mem_cons.mpr (Or.inl (by omega))
  · exact hmem

theorem exists_le_average {values : List ℤ} (h : values ≠ []) :
    (∃ low ∈ values, low * values.length ≤ values.sum) ∧
      ∃ high ∈ values, values.sum ≤ high * values.length := by
  have hmap : (values.map fun _ => values.sum).sum =
      (values.map fun v : ℤ => v * (values.length : ℤ)).sum := by
    rw [List.map_const', List.sum_replicate, List.sum_map_mul_right, List.map_id', nsmul_eq_mul,
      mul_comm]
  obtain ⟨low, hlow, hle⟩ := List.exists_le_of_sum_le h _ _ (le_of_eq hmap.symm)
  obtain ⟨high, hhigh, hge⟩ := List.exists_le_of_sum_le h _ _ (le_of_eq hmap)
  exact ⟨⟨low, hlow, hle⟩, high, hhigh, hge⟩

/-- The division of the source: the sum is taken for a number without sign. -/
def unsignedAverage (sum : ℤ) (count : ℕ) : ℤ := Int.bmod (sum % 2 ^ 32 / count) (2 ^ 16)

theorem unsignedAverage_nonneg {sum : ℤ} {count : ℕ} (hcount : 0 < count) (hle : count ≤ 32)
    (hsum : 0 ≤ sum) (hhigh : sum < count * 2 ^ 15) : unsignedAverage sum count = sum / count := by
  have hpos : (0 : ℤ) < count := by omega
  have hlow := Int.ediv_nonneg hsum hpos.le
  have hquot : sum / count < 2 ^ 15 := Int.ediv_lt_of_lt_mul hpos (by omega)
  rw [unsignedAverage, Int.emod_eq_of_lt hsum (by omega), Int.bmod_def]
  split_ifs <;> omega

theorem unsignedAverage_pow {sum : ℤ} {k : ℕ} (hk : k ≤ 5) (hlow : -2 ^ k * 2 ^ 15 ≤ sum)
    (hsum : sum < 0) : unsignedAverage sum (2 ^ k) = sum / (2 ^ k : ℕ) := by
  rw [unsignedAverage, Int.bmod_def]
  obtain rfl | rfl | rfl | rfl | rfl | rfl :
      k = 0 ∨ k = 1 ∨ k = 2 ∨ k = 3 ∨ k = 4 ∨ k = 5 := by omega
  all_goals
    split_ifs <;> omega

theorem pow_of_unsignedAverage {sum : ℤ} {count : ℕ} (hcount : 0 < count) (hle : count ≤ 32)
    (hlow : -count * 2 ^ 15 ≤ sum) (hsum : sum < 0)
    (h : unsignedAverage sum count = sum / count ∨ unsignedAverage sum count = sum / count + 1) :
    ∃ k, count = 2 ^ k := by
  have hpos : (0 : ℤ) < count := by omega
  have hmod : sum % 2 ^ 32 = sum + 2 ^ 32 := by omega
  obtain ⟨t, ht⟩ : ∃ t, (sum + 2 ^ 32) / count = unsignedAverage sum count + 2 ^ 16 * t := by
    refine ⟨(sum + 2 ^ 32) / count / 2 ^ 16 + if (sum + 2 ^ 32) / count % 2 ^ 16 < 2 ^ 15 then 0
      else 1, ?_⟩
    rw [unsignedAverage, hmod, Int.bmod_def]
    split_ifs <;> omega
  have hlarge := Int.mul_ediv_add_emod (sum + 2 ^ 32) count
  have hlargeLt := Int.emod_lt_of_pos (sum + 2 ^ 32) hpos
  have hlargeNonneg := Int.emod_nonneg (sum + 2 ^ 32) hpos.ne'
  have hsmall := Int.mul_ediv_add_emod sum count
  have hsmallLt := Int.emod_lt_of_pos sum hpos
  have hsmallNonneg := Int.emod_nonneg sum hpos.ne'
  have hprod : (count : ℤ) * t = 2 ^ 16 := by
    rcases h with h | h
    · rw [ht, h, mul_add, mul_left_comm] at hlarge
      omega
    · rw [ht, h, mul_add, mul_add, mul_one, mul_left_comm] at hlarge
      omega
  have hdvd : count ∣ 2 ^ 16 := by
    have hint : (count : ℤ) ∣ ((2 ^ 16 : ℕ) : ℤ) := ⟨t, hprod.symm⟩
    exact Int.natCast_dvd_natCast.mp hint
  obtain ⟨k, -, hk⟩ := (Nat.dvd_prime_pow Nat.prime_two).mp hdvd
  exact ⟨k, hk⟩

variable (np : NetplayT σ) (data : List UInt32) (simframe : DeltaFrame σ)
  (device clients word bit : ℕ)

/-- The values of the clients that have a state. -/
def clientValues : List ℤ :=
  (mergedStates np simframe device clients data.length).map fun s => analogValue s.data word bit

/-- The merged value is within those of the clients, and an average is the quotient rounded
towards zero or down. -/
def StaysWithin : Prop :=
  let values := clientValues np data simframe device clients word bit
  let merged := analogValue (mergeAnalogPart np data simframe device clients word bit) word bit
  (∃ low ∈ values, low ≤ merged) ∧ (∃ high ∈ values, merged ≤ high) ∧
    (np.roster.deviceShareModes device &&& NETPLAY_SHARE_ANALOG_BITS =
        NETPLAY_SHARE_ANALOG_AVERAGE →
      merged = values.sum.tdiv values.length ∨ merged = values.sum.fdiv values.length)

variable {np data simframe device clients word bit}

theorem clientValues_bounds {v : ℤ}
    (hv : v ∈ clientValues np data simframe device clients word bit) :
    -2 ^ 15 ≤ v ∧ v < 2 ^ 15 := by
  obtain ⟨s, -, rfl⟩ := List.mem_map.mp hv
  exact analogValue_bounds s.data word bit

theorem length_clientValues_le :
    (clientValues np data simframe device clients word bit).length ≤ 32 := by
  rw [clientValues, List.length_map, mergedStates]
  refine le_trans (List.length_filterMap_le ..) ?_
  rw [List.length_range]

/-- What is merged into a half word without bits. -/
theorem analogValue_mergeAnalogPart (hword : word < data.length) (hbit : bit = 0 ∨ bit = 16)
    (hclear : analogValue data word bit = 0)
    (hvalues : clientValues np data simframe device clients word bit ≠ []) :
    analogValue (mergeAnalogPart np data simframe device clients word bit) word bit =
      if np.roster.deviceShareModes device &&& NETPLAY_SHARE_ANALOG_BITS =
          NETPLAY_SHARE_ANALOG_AVERAGE then
        unsignedAverage (clientValues np data simframe device clients word bit).sum
          (clientValues np data simframe device clients word bit).length
      else Int.bmod ((clientValues np data simframe device clients word bit).foldl farther 0)
        (2 ^ 16) := by
  have hlen : (clientValues np data simframe device clients word bit).length =
      (mergedStates np simframe device clients data.length).length := List.length_map _
  have hpos := List.length_pos_of_ne_nil hvalues
  rw [mergeAnalogPart]
  dsimp only
  rw [analogValue_modify hword hbit hclear]
  by_cases hmode : np.roster.deviceShareModes device &&& NETPLAY_SHARE_ANALOG_BITS =
      NETPLAY_SHARE_ANALOG_AVERAGE
  · have hsum : (mergedStates np simframe device clients data.length).foldl
        (fun value s => value + analogValue s.data word bit) 0 =
        (clientValues np data simframe device clients word bit).sum := by
      rw [List.sum_eq_foldl, clientValues, List.foldl_map]
    simp only [if_pos hmode]
    rw [if_pos ⟨hmode, hlen ▸ hpos⟩, hsum, unsignedAverage, hlen]
  · simp only [if_neg hmode]
    rw [if_neg fun h => hmode h.1, clientValues, List.foldl_map]
    rfl

theorem quotient_cases {sum merged : ℤ} {count : ℕ} (hcount : 0 < count)
    (h : merged = sum.tdiv count ∨ merged = sum.fdiv count) :
    merged = sum / count ∨ merged = sum / count + 1 := by
  have hpos : (0 : ℤ) < count := Int.natCast_pos.mpr hcount
  rcases h with rfl | rfl
  · rw [Int.tdiv_eq_ediv, Int.sign_eq_one_of_pos hpos]
    split_ifs
    · exact Or.inl (add_zero _)
    · exact Or.inr rfl
  · exact Or.inl (Int.fdiv_eq_ediv_of_nonneg _ hpos.le)

theorem within_of_ediv {values : List ℤ} (h : values ≠ []) {merged : ℤ}
    (hmerged : merged = values.sum / values.length) :
    (∃ low ∈ values, low ≤ merged) ∧ (∃ high ∈ values, merged ≤ high) := by
  have hpos : (0 : ℤ) < values.length := Int.natCast_pos.mpr (List.length_pos_of_ne_nil h)
  obtain ⟨⟨low, hlow, hle⟩, high, hhigh, hge⟩ := exists_le_average h
  refine ⟨⟨low, hlow, ?_⟩, high, hhigh, ?_⟩
  · rw [hmerged]
    exact (Int.le_ediv_iff_mul_le hpos).mpr hle
  · rw [hmerged, ← Int.mul_ediv_cancel high hpos.ne']
    exact Int.ediv_le_ediv hpos hge

end Analog

/-- A merged axis is what it should be for just the mode that takes the farthest value, the sums
that are not negative and the numbers of clients that are powers of two. -/
theorem mergeAnalogPart_within_iff (np : NetplayT σ) (data : List UInt32) (simframe : DeltaFrame σ)
    (device clients word bit : ℕ) (hword : word < data.length) (hbit : bit = 0 ∨ bit = 16)
    (hclear : analogValue data word bit = 0)
    (hvalues : clientValues np data simframe device clients word bit ≠ []) :
    StaysWithin np data simframe device clients word bit ↔
      (np.roster.deviceShareModes device &&& NETPLAY_SHARE_ANALOG_BITS =
          NETPLAY_SHARE_ANALOG_AVERAGE →
        0 ≤ (clientValues np data simframe device clients word bit).sum ∨
          ∃ k, (clientValues np data simframe device clients word bit).length = 2 ^ k) := by
  have hmerged := analogValue_mergeAnalogPart hword hbit hclear hvalues
  have hpos := List.length_pos_of_ne_nil hvalues
  have hlen : (clientValues np data simframe device clients word bit).length ≤ 32 :=
    length_clientValues_le
  have hbounds : ∀ v ∈ clientValues np data simframe device clients word bit,
      -2 ^ 15 ≤ v ∧ v < 2 ^ 15 := fun v hv => clientValues_bounds hv
  rw [StaysWithin, hmerged]
  generalize clientValues np data simframe device clients word bit = values at *
  by_cases hmode : np.roster.deviceShareModes device &&& NETPLAY_SHARE_ANALOG_BITS =
      NETPLAY_SHARE_ANALOG_AVERAGE
  · have hcast : (0 : ℤ) < values.length := Int.natCast_pos.mpr hpos
    obtain ⟨⟨low, hlow, hle⟩, high, hhigh, hge⟩ := exists_le_average hvalues
    have hsumLow : -values.length * 2 ^ 15 ≤ values.sum := by
      have hmul := Int.mul_le_mul_of_nonneg_right (hbounds low hlow).1 hcast.le
      omega
    have hsumHigh : values.sum < values.length * 2 ^ 15 := by
      have hmul := Int.mul_lt_mul_of_pos_right (hbounds high hhigh).2 hcast
      omega
    rw [if_pos hmode]
    simp only [hmode, forall_const]
    constructor
    · rintro ⟨-, -, hquotient⟩
      by_cases hsum : 0 ≤ values.sum
      · exact Or.inl hsum
      · have hnegative := Int.lt_of_not_ge hsum
        have hnear := quotient_cases hpos hquotient
        exact Or.inr (pow_of_unsignedAverage hpos hlen hsumLow hnegative hnear)
    · intro hcase
      have heq : unsignedAverage values.sum values.length = values.sum / values.length := by
        by_cases hsum : 0 ≤ values.sum
        · exact unsignedAverage_nonneg hpos hlen hsum hsumHigh
        · obtain ⟨k, hk⟩ := hcase.resolve_left hsum
          have hk5 : k ≤ 5 := (Nat.pow_le_pow_iff_right (by decide)).mp (hk ▸ hlen)
          rw [hk] at hsumLow ⊢
          exact unsignedAverage_pow hk5 (by exact_mod_cast hsumLow) (Int.lt_of_not_ge hsum)
      obtain ⟨hlow, hhigh⟩ := within_of_ediv hvalues heq
      refine ⟨hlow, hhigh, Or.inr ?_⟩
      rw [heq, Int.fdiv_eq_ediv_of_nonneg _ hcast.le]
  · have hmem := foldl_farther_mem hvalues
    obtain ⟨hlow, hhigh⟩ := hbounds _ hmem
    have hmod : Int.bmod (values.foldl farther 0) (2 ^ 16) = values.foldl farther 0 := by
      rw [Int.bmod_def]
      split_ifs <;> omega
    rw [if_neg hmode, hmod]
    refine iff_of_true ⟨⟨_, hmem, le_refl _⟩, ⟨_, hmem, le_refl _⟩, ?_⟩ ?_
    · exact fun h => absurd h hmode
    · exact fun h => absurd h hmode

/-- The average of two clients that hold one axis to either side. -/
theorem opposite_axes_average :
    StaysWithin (sharing RETRO_DEVICE_ANALOG NETPLAY_SHARE_ANALOG_AVERAGE) [0, 0, 0]
        (sharedFrame [[0, 0x7FFF, 0], [0, 0x8000, 0]]) 0 3 1 0 ↔
      ((sharing RETRO_DEVICE_ANALOG NETPLAY_SHARE_ANALOG_AVERAGE).roster.deviceShareModes 0 &&&
          NETPLAY_SHARE_ANALOG_BITS = NETPLAY_SHARE_ANALOG_AVERAGE →
        0 ≤ (clientValues (sharing RETRO_DEVICE_ANALOG NETPLAY_SHARE_ANALOG_AVERAGE) [0, 0, 0]
            (sharedFrame [[0, 0x7FFF, 0], [0, 0x8000, 0]]) 0 3 1 0).sum ∨
          ∃ k, (clientValues (sharing RETRO_DEVICE_ANALOG NETPLAY_SHARE_ANALOG_AVERAGE) [0, 0, 0]
            (sharedFrame [[0, 0x7FFF, 0], [0, 0x8000, 0]]) 0 3 1 0).length = 2 ^ k) :=
  mergeAnalogPart_within_iff _ _ _ _ _ _ _ (by decide) (Or.inl rfl) (by decide)
    (by decide)

/-- Three clients that hold an axis at -1 get 21844. -/
theorem negative_axes_average :
    ¬ ∀ (np : NetplayT ℕ) (data : List UInt32) (simframe : DeltaFrame ℕ)
      (device clients word bit : ℕ), word < data.length → bit = 0 ∨ bit = 16 →
        analogValue data word bit = 0 →
          clientValues np data simframe device clients word bit ≠ [] →
            StaysWithin np data simframe device clients word bit := by
  intro h
  have hwithin := h (sharing RETRO_DEVICE_ANALOG NETPLAY_SHARE_ANALOG_AVERAGE) [0, 0, 0]
    (sharedFrame [[0, 0xFFFF, 0], [0, 0xFFFF, 0], [0, 0xFFFF, 0]]) 0 7 1 0 (by decide) (Or.inl rfl)
    (by decide) (by decide)
  obtain ⟨-, ⟨high, hhigh, hle⟩, -⟩ := hwithin
  have hvalues : clientValues (sharing RETRO_DEVICE_ANALOG NETPLAY_SHARE_ANALOG_AVERAGE) [0, 0, 0]
      (sharedFrame [[0, 0xFFFF, 0], [0, 0xFFFF, 0], [0, 0xFFFF, 0]]) 0 7 1 0 = [-1, -1, -1] := by
    decide
  have hmerged : analogValue (mergeAnalogPart (sharing RETRO_DEVICE_ANALOG
      NETPLAY_SHARE_ANALOG_AVERAGE) [0, 0, 0]
      (sharedFrame [[0, 0xFFFF, 0], [0, 0xFFFF, 0], [0, 0xFFFF, 0]]) 0 7 1 0) 1 0 = 21844 := by
    decide
  rw [hvalues] at hhigh
  rw [hmerged] at hle
  simp only [List.mem_cons, List.not_mem_nil, or_false, or_self] at hhigh
  omega

end RetroArch.Netplay.Merging
