/- Strings and numbers as the C library reads them out of a block of memory. A reading that
   runs off the end of the block has no result. -/

import Mathlib.Data.List.TakeWhile
import RetroArch.Library.Memory

namespace RetroArch.Library.CString

open Memory

/-- The index of the first `b` among the `n` bytes at `start`. -/
def memchr (mem : List UInt8) (b : UInt8) (start n : ℕ) : Option (Option ℕ) :=
  (peeks mem start n).map fun bytes => (bytes.idxOf? b).map (start + ·)

def memmove (mem : List UInt8) (dst src n : ℕ) : Option (List UInt8) :=
  (peeks mem src n).bind (pokes mem dst)

/-- Whether the bytes start with `lit`; they are compared up to the first difference. -/
def startsWith : List UInt8 → List UInt8 → Option Bool
  | [], _ => some true
  | _ :: _, [] => none
  | c :: cs, b :: bs => if b = c then startsWith cs bs else some false

/-- `strcmp(bytes, lit) == 0` for a `lit` without a NUL. -/
def strcmpEq : List UInt8 → List UInt8 → Option Bool
  | _, [] => none
  | [], b :: _ => some (b = 0)
  | c :: cs, b :: bs => if b = c then strcmpEq cs bs else some false

/-- The index of the first `b` of a string, which may be its terminator. -/
def scanString (b : UInt8) : List UInt8 → Option (Option ℕ)
  | [] => none
  | c :: cs =>
    if c = b then some (some 0)
    else if c = 0 then some none
    else (scanString b cs).map (Option.map (· + 1))

def strchr (mem : List UInt8) (start : ℕ) (b : UInt8) : Option (Option ℕ) :=
  (scanString b (mem.drop start)).map (Option.map (start + ·))

def strlen (mem : List UInt8) (start : ℕ) : Option ℕ := (scanString 0 (mem.drop start)).bind id

def isSpace (b : UInt8) : Bool := b = 32 || (9 ≤ b && b ≤ 13)

def digitOf (base : ℕ) (b : UInt8) : Option ℕ :=
  Option.filter (· < base)
    (if 48 ≤ b ∧ b ≤ 57 then some (b.toNat - 48)
    else if 97 ≤ b ∧ b ≤ 122 then some (b.toNat - 87)
    else if 65 ≤ b ∧ b ≤ 90 then some (b.toNat - 55)
    else none)

def skipSign : List UInt8 → Bool × List UInt8
  | [] => (false, [])
  | b :: bs => if b = 45 then (true, bs) else if b = 43 then (false, bs) else (false, b :: bs)

/-- The `0x` that may stand before a number of base 16. -/
def skipBase (base : ℕ) : List UInt8 → List UInt8
  | b :: x :: bs => if base = 16 ∧ b = 48 ∧ (x = 120 ∨ x = 88) then bs else b :: x :: bs
  | bs => bs

def scanDigits (base : ℕ) : ℕ → List UInt8 → ℕ × List UInt8
  | n, [] => (n, [])
  | n, b :: bs =>
    match digitOf base b with
    | some d => scanDigits base (n * base + d) bs
    | none => (n, b :: bs)

/-- The sign and the amount of the number at the start of the bytes, and what stands behind. -/
def scanNumber (base : ℕ) (bytes : List UInt8) : Bool × ℕ × List UInt8 :=
  let signed := skipSign (bytes.dropWhile isSpace)
  (signed.1, scanDigits base 0 (skipBase base signed.2))

/-- There is a byte behind the number that ends it. -/
def NumberEnds (base : ℕ) (bytes : List UInt8) : Prop := (scanNumber base bytes).2.2 ≠ []

instance (base : ℕ) (bytes : List UInt8) : Decidable (NumberEnds base bytes) :=
  inferInstanceAs (Decidable (_ ≠ _))

/-- Numbers out of range saturate, and a minus sign is taken modulo `2^64`. -/
def strtoul (base : ℕ) (bytes : List UInt8) : Option ℕ :=
  match scanNumber base bytes with
  | (_, _, []) => none
  | (neg, n, _ :: _) =>
    some (if 2 ^ 64 ≤ n then 2 ^ 64 - 1 else if neg then (2 ^ 64 - n) % 2 ^ 64 else n)

def strtol (base : ℕ) (bytes : List UInt8) : Option ℤ :=
  match scanNumber base bytes with
  | (_, _, []) => none
  | (neg, n, _ :: _) => some (if neg then -(min n (2 ^ 63) : ℕ) else (min n (2 ^ 63 - 1) : ℕ))

section Reading

variable {mem : List UInt8} {b : UInt8} {start n : ℕ}

theorem memchr_spec (mem : List UInt8) (b : UInt8) (start n : ℕ) (h : start + n ≤ mem.length) :
    ∃ found, memchr mem b start n = some found ∧
      ∀ i, found = some i → start ≤ i ∧ i < start + n := by
  refine ⟨_, by rw [memchr, peeks_of_le h]; rfl, ?_⟩
  intro i hi
  obtain ⟨k, hk, rfl⟩ := Option.map_eq_some_iff.mp hi
  obtain ⟨hlt, -⟩ := List.idxOf?_eq_some_iff.mp hk
  rw [List.length_take, List.length_drop] at hlt
  exact ⟨Nat.le_add_right start k, by omega⟩

theorem memmove_spec (mem : List UInt8) (dst src n : ℕ) (hsrc : src + n ≤ mem.length)
    (hdst : dst + n ≤ mem.length) :
    ∃ mem', memmove mem dst src n = some mem' ∧ mem'.length = mem.length := by
  have hlen : ((mem.drop src).take n).length = n := by
    rw [List.length_take, List.length_drop]
    omega
  have hpokes : pokes mem dst ((mem.drop src).take n) =
      some (mem.take dst ++ (mem.drop src).take n ++ mem.drop (dst + n)) := by
    rw [pokes, hlen, if_pos hdst]
  exact ⟨_, by rw [memmove, peeks_of_le hsrc, Option.bind_some, hpokes], length_pokes hpokes⟩

theorem startsWith_isSome (lit bytes : List UInt8) (h : lit.length ≤ bytes.length) :
    ∃ answer, startsWith lit bytes = some answer := by
  induction lit generalizing bytes with
  | nil => exact ⟨true, rfl⟩
  | cons c cs ih =>
    cases bytes with
    | nil => simp at h
    | cons b bs =>
      rw [startsWith]
      split
      · exact ih bs (Nat.le_of_succ_le_succ h)
      · exact ⟨false, rfl⟩

theorem strcmpEq_isSome (lit bytes : List UInt8) (h : lit.length < bytes.length) :
    ∃ answer, strcmpEq lit bytes = some answer := by
  induction lit generalizing bytes with
  | nil =>
    cases bytes with
    | nil => simp at h
    | cons b bs => exact ⟨_, rfl⟩
  | cons c cs ih =>
    cases bytes with
    | nil => simp at h
    | cons b bs =>
      rw [strcmpEq]
      split
      · exact ih bs (Nat.lt_of_succ_lt_succ h)
      · exact ⟨false, rfl⟩

theorem startsWith_true {lit bytes : List UInt8} (h : startsWith lit bytes = some true) :
    bytes.take lit.length = lit := by
  induction lit generalizing bytes with
  | nil => rfl
  | cons c cs ih =>
    cases bytes with
    | nil => simp [startsWith] at h
    | cons b bs =>
      rw [startsWith] at h
      split at h
      · next heq => rw [List.length_cons, List.take_succ_cons, ih h, heq]
      · simp at h

theorem startsWith_string (lit line rest : List UInt8) (hlit : (0 : UInt8) ∉ lit) :
    startsWith lit (line ++ 0 :: rest) = some (decide (lit <+: line)) := by
  induction lit generalizing line with
  | nil => simp [startsWith]
  | cons c cs ih =>
    have hc : (0 : UInt8) ≠ c := fun h => hlit (h ▸ List.mem_cons_self)
    cases line with
    | nil => simp [startsWith, hc]
    | cons b bs =>
      rw [List.cons_append, startsWith]
      by_cases hb : b = c
      · rw [if_pos hb, ih bs fun h => hlit (List.mem_cons_of_mem _ h), hb]
        simp
      · rw [if_neg hb]
        simp [List.cons_prefix_cons, Ne.symm hb]

theorem strcmpEq_string (lit line rest : List UInt8) (hlit : (0 : UInt8) ∉ lit)
    (hline : (0 : UInt8) ∉ line) :
    strcmpEq lit (line ++ 0 :: rest) = some (decide (line = lit)) := by
  induction lit generalizing line with
  | nil =>
    cases line with
    | nil => rfl
    | cons b bs =>
      have hb : b ≠ 0 := fun h => hline (h ▸ List.mem_cons_self)
      simp [strcmpEq, hb]
  | cons c cs ih =>
    have hc : (0 : UInt8) ≠ c := fun h => hlit (h ▸ List.mem_cons_self)
    cases line with
    | nil => simp [strcmpEq, hc]
    | cons b bs =>
      rw [List.cons_append, strcmpEq]
      by_cases hb : b = c
      · rw [if_pos hb, ih bs (fun h => hlit (List.mem_cons_of_mem _ h))
          (fun h => hline (List.mem_cons_of_mem _ h)), hb]
        simp
      · rw [if_neg hb]
        simp [hb]

theorem idxOf?_append_cons (before after : List UInt8) (hbefore : b ∉ before) :
    (before ++ b :: after).idxOf? b = some before.length := by
  induction before with
  | nil => simp [List.idxOf?_cons]
  | cons x xs ih =>
    have hx : x ≠ b := fun h => hbefore (h ▸ List.mem_cons_self)
    rw [List.cons_append, List.idxOf?_cons, if_neg (by simpa using hx),
      ih fun h => hbefore (List.mem_cons_of_mem _ h)]
    rfl

/-- The search stops behind the bytes that are none of those looked for. -/
theorem scanString_found {front : List UInt8} (after : List UInt8) (hfront : b ∉ front)
    (hnul : (0 : UInt8) ∉ front) : scanString b (front ++ b :: after) = some (some front.length) := by
  induction front with
  | nil => exact if_pos rfl
  | cons c cs ih =>
    rw [List.mem_cons, not_or] at hfront hnul
    rw [List.cons_append, scanString, if_neg (Ne.symm hfront.1), if_neg (Ne.symm hnul.1),
      ih hfront.2 hnul.2]
    rfl

theorem scanString_absent {line : List UInt8} (after : List UInt8) (hne : b ≠ 0) (hline : b ∉ line)
    (hnul : (0 : UInt8) ∉ line) : scanString b (line ++ 0 :: after) = some none := by
  induction line with
  | nil =>
    rw [List.nil_append, scanString, if_neg (Ne.symm hne), if_pos rfl]
  | cons c cs ih =>
    rw [List.mem_cons, not_or] at hline hnul
    rw [List.cons_append, scanString, if_neg (Ne.symm hline.1), if_neg (Ne.symm hnul.1),
      ih hline.2 hnul.2]
    rfl

/-- The first `b` behind `pre`, in a string. -/
theorem strchr_found {pre front : List UInt8} (after : List UInt8) (hfront : b ∉ front)
    (hnul : (0 : UInt8) ∉ front) :
    strchr (pre ++ (front ++ b :: after)) pre.length b = some (some (pre.length + front.length)) := by
  rw [strchr, List.drop_left, scanString_found after hfront hnul]
  rfl

theorem strchr_absent {pre line : List UInt8} (after : List UInt8) (hne : b ≠ 0) (hline : b ∉ line)
    (hnul : (0 : UInt8) ∉ line) :
    strchr (pre ++ (line ++ 0 :: after)) pre.length b = some none := by
  rw [strchr, List.drop_left, scanString_absent after hne hline hnul]
  rfl

theorem strlen_string {line : List UInt8} (after : List UInt8) (hnul : (0 : UInt8) ∉ line) :
    strlen (line ++ 0 :: after) 0 = some line.length := by
  rw [strlen, List.drop_zero, scanString_found after hnul hnul]
  rfl

theorem memchr_first (start n : ℕ) (before after : List UInt8) (hn : start + n ≤ mem.length)
    (hmem : (mem.drop start).take n = before ++ b :: after) (hbefore : b ∉ before) :
    memchr mem b start n = some (some (start + before.length)) := by
  rw [memchr, peeks_of_le hn, hmem, Option.map_some, idxOf?_append_cons before after hbefore]
  rfl

theorem memchr_absent (start n : ℕ) (hn : start + n ≤ mem.length)
    (habsent : b ∉ (mem.drop start).take n) : memchr mem b start n = some none := by
  rw [memchr, peeks_of_le hn, Option.map_some, List.idxOf?_eq_none_iff.mpr habsent]
  rfl

end Reading

section Scanning

variable {base : ℕ}

theorem scanDigits_append (n : ℕ) (bytes more : List UInt8)
    (h : (scanDigits base n bytes).2 ≠ []) :
    scanDigits base n (bytes ++ more) =
      ((scanDigits base n bytes).1, (scanDigits base n bytes).2 ++ more) := by
  induction bytes generalizing n with
  | nil => simp [scanDigits] at h
  | cons b bs ih =>
    rw [List.cons_append, scanDigits]
    rw [scanDigits] at h ⊢
    cases hd : digitOf base b with
    | none => rfl
    | some d =>
      rw [hd] at h
      exact ih _ h

theorem skipBase_append (bytes more : List UInt8)
    (h : (scanDigits base 0 (skipBase base bytes)).2 ≠ []) :
    ∃ n, scanDigits base 0 (skipBase base (bytes ++ more)) =
      (n, (scanDigits base 0 (skipBase base bytes)).2 ++ more) ∧
      n = (scanDigits base 0 (skipBase base bytes)).1 := by
  match bytes with
  | [] => simp [skipBase, scanDigits] at h
  | [b] =>
    -- a digit at the very end would not end the number
    have hnot : digitOf base b = none := by
      cases hd : digitOf base b with
      | none => rfl
      | some d => simp [skipBase, scanDigits, hd] at h
    have hzero : ¬ (base = 16 ∧ b = 48) := by
      rintro ⟨rfl, rfl⟩
      simp [digitOf] at hnot
    refine ⟨0, ?_, by simp [skipBase, scanDigits, hnot]⟩
    cases more with
    | nil => simp [skipBase, scanDigits, hnot]
    | cons x xs =>
      have hplain : skipBase base (b :: x :: xs) = b :: x :: xs := by
        rw [skipBase, if_neg (fun h => hzero ⟨h.1, h.2.1⟩)]
      rw [List.singleton_append, hplain]
      simp [skipBase, scanDigits, hnot]
  | b :: x :: bs =>
    rw [List.cons_append, List.cons_append, skipBase]
    rw [skipBase] at h ⊢
    split
    · next hx =>
        rw [if_pos hx] at h
        exact ⟨_, scanDigits_append 0 bs more h, rfl⟩
    · next hx =>
        rw [if_neg hx] at h
        exact ⟨_, scanDigits_append 0 (b :: x :: bs) more h, rfl⟩

theorem skipSign_append (bytes more : List UInt8) (h : bytes ≠ []) :
    skipSign (bytes ++ more) = ((skipSign bytes).1, (skipSign bytes).2 ++ more) := by
  cases bytes with
  | nil => exact absurd rfl h
  | cons b bs =>
    rw [List.cons_append, skipSign, skipSign]
    split_ifs <;> rfl

/-- A number that has ended is not changed by what comes behind it. -/
theorem scanNumber_append (bytes more : List UInt8) (h : NumberEnds base bytes) :
    scanNumber base (bytes ++ more) =
      ((scanNumber base bytes).1, (scanNumber base bytes).2.1,
        (scanNumber base bytes).2.2 ++ more) := by
  have hspace : bytes.dropWhile isSpace ≠ [] := by
    intro hnil
    apply h
    rw [scanNumber, hnil]
    rfl
  obtain ⟨n, hscan, hn⟩ := skipBase_append (skipSign (bytes.dropWhile isSpace)).2 more h
  rw [scanNumber, List.dropWhile_append, if_neg (by simpa using hspace),
    skipSign_append _ _ hspace, hscan, hn]
  rfl

theorem NumberEnds.of_isPrefix {bytes more : List UInt8} (h : NumberEnds base bytes)
    (hp : bytes <+: more) : NumberEnds base more := by
  obtain ⟨rest, rfl⟩ := hp
  rw [NumberEnds, scanNumber_append bytes rest h]
  exact List.append_ne_nil_of_left_ne_nil h rest

theorem strtol_append {bytes : List UInt8} (more : List UInt8) (h : NumberEnds base bytes) :
    strtol base (bytes ++ more) = strtol base bytes := by
  obtain ⟨b, bs, hrest⟩ := List.exists_cons_of_ne_nil h
  have hscan : scanNumber base bytes =
      ((scanNumber base bytes).1, (scanNumber base bytes).2.1, b :: bs) := by rw [← hrest]
  rw [strtol, strtol, scanNumber_append bytes more h, hrest, hscan]
  rfl

theorem strtoul_isSome {bytes : List UInt8} (h : NumberEnds base bytes) :
    ∃ n, strtoul base bytes = some n := by
  obtain ⟨b, bs, hrest⟩ := List.exists_cons_of_ne_nil h
  unfold strtoul
  split
  · next heq =>
      rw [heq] at hrest
      exact nomatch hrest
  · exact ⟨_, rfl⟩

theorem strtol_isSome {bytes : List UInt8} (h : NumberEnds base bytes) :
    ∃ n, strtol base bytes = some n := by
  obtain ⟨b, bs, hrest⟩ := List.exists_cons_of_ne_nil h
  unfold strtol
  split
  · next heq =>
      rw [heq] at hrest
      exact nomatch hrest
  · exact ⟨_, rfl⟩

theorem digitOf_nul : digitOf base 0 = none := rfl

theorem nul_mem_scanDigits (n : ℕ) (bytes : List UInt8) (h : (0 : UInt8) ∈ bytes) :
    (0 : UInt8) ∈ (scanDigits base n bytes).2 := by
  induction bytes generalizing n with
  | nil => exact absurd h List.not_mem_nil
  | cons b bs ih =>
    rw [scanDigits]
    cases hd : digitOf base b with
    | none => exact h
    | some d =>
      rcases List.mem_cons.mp h with rfl | hmem
      · rw [digitOf_nul] at hd
        exact nomatch hd
      · exact ih _ hmem

theorem numberEnds_of_nul (base : ℕ) {bytes : List UInt8} (h : (0 : UInt8) ∈ bytes) :
    NumberEnds base bytes := by
  have hspace : (0 : UInt8) ∈ bytes.dropWhile isSpace := by
    have hsplit := List.takeWhile_append_dropWhile (p := isSpace) (l := bytes)
    rw [← hsplit, List.mem_append] at h
    rcases h with htake | hdrop
    · exact absurd (List.mem_takeWhile_imp htake) (by decide : ¬ isSpace 0 = true)
    · exact hdrop
  have hsign : (0 : UInt8) ∈ (skipSign (bytes.dropWhile isSpace)).2 := by
    cases hbytes : bytes.dropWhile isSpace with
    | nil =>
      rw [hbytes] at hspace
      exact absurd hspace List.not_mem_nil
    | cons b bs =>
      rw [hbytes] at hspace
      rw [skipSign]
      split_ifs with hminus hplus
      · exact (List.mem_cons.mp hspace).resolve_left fun h => absurd (h.trans hminus) (by decide)
      · exact (List.mem_cons.mp hspace).resolve_left fun h => absurd (h.trans hplus) (by decide)
      · exact hspace
  have hbase : (0 : UInt8) ∈ skipBase base (skipSign (bytes.dropWhile isSpace)).2 := by
    generalize (skipSign (bytes.dropWhile isSpace)).2 = rest at hsign
    match rest with
    | [] => exact hsign
    | [b] => exact hsign
    | b :: x :: bs =>
      rw [skipBase]
      split_ifs with hx
      · obtain ⟨-, rfl, hx⟩ := hx
        simp only [List.mem_cons] at hsign
        rcases hsign with h0 | h0 | hmem
        · exact absurd h0 (by decide)
        · rcases hx with rfl | rfl <;> exact absurd h0 (by decide)
        · exact hmem
      · exact hsign
  exact List.ne_nil_of_mem (nul_mem_scanDigits 0 _ hbase)

/-- The value of a row of digits. -/
def numeral (base : ℕ) (digits : List UInt8) : ℕ :=
  digits.foldl (fun n b => n * base + (digitOf base b).getD 0) 0

/-- The bytes start with one that ends a number. -/
def Stops (base : ℕ) (rest : List UInt8) : Prop :=
  ∃ b bs, rest = b :: bs ∧ digitOf base b = none ∧ b ≠ 120 ∧ b ≠ 88

theorem digit_least {b : UInt8} (h : (digitOf base b).isSome) : 48 ≤ b.toNat := by
  by_contra hlt
  have hsmall : b < 48 := by
    rw [UInt8.lt_iff_toNat_lt]
    exact Nat.lt_of_not_le hlt
  have hone : ¬ (48 ≤ b ∧ b ≤ 57) := by
    rw [UInt8.le_iff_toNat_le]
    exact fun h => hlt h.1
  have htwo : ¬ (97 ≤ b ∧ b ≤ 122) := by
    rw [UInt8.le_iff_toNat_le]
    exact fun h => hlt (Nat.le_trans (by decide) h.1)
  have hthree : ¬ (65 ≤ b ∧ b ≤ 90) := by
    rw [UInt8.le_iff_toNat_le]
    exact fun h => hlt (Nat.le_trans (by decide) h.1)
  rw [digitOf, if_neg hone, if_neg htwo, if_neg hthree] at h
  exact absurd h (by simp)

theorem digit_not_space {b : UInt8} (h : (digitOf base b).isSome) : isSpace b = false := by
  have hleast := digit_least h
  have h32 : b ≠ 32 := by
    rintro rfl
    exact absurd hleast (by decide)
  have h13 : ¬ b ≤ 13 := by
    rw [UInt8.le_iff_toNat_le]
    intro hle
    exact absurd (Nat.le_trans hleast hle) (by decide)
  simp [isSpace, h32, h13]

theorem digit_not_sign {b : UInt8} (h : (digitOf base b).isSome) : b ≠ 45 ∧ b ≠ 43 := by
  have hleast := digit_least h
  constructor
  all_goals
    rintro rfl
    exact absurd hleast (by decide)

theorem scanDigits_numeral (digits rest : List UInt8) (n : ℕ)
    (hdigits : ∀ b ∈ digits, (digitOf base b).isSome) (hrest : Stops base rest) :
    scanDigits base n (digits ++ rest) =
      (digits.foldl (fun n b => n * base + (digitOf base b).getD 0) n, rest) := by
  induction digits generalizing n with
  | nil =>
    obtain ⟨b, bs, rfl, hstop, -⟩ := hrest
    rw [List.nil_append, scanDigits, hstop]
    rfl
  | cons b bs ih =>
    obtain ⟨d, hd⟩ := Option.isSome_iff_exists.mp (hdigits b List.mem_cons_self)
    rw [List.cons_append, scanDigits, hd]
    simp only [List.foldl_cons, hd, Option.getD_some]
    exact ih _ fun b hb => hdigits b (List.mem_cons_of_mem _ hb)

theorem skipBase_digits (digits rest : List UInt8)
    (hdigits : ∀ b ∈ digits, (digitOf base b).isSome) (hrest : Stops base rest) :
    skipBase base (digits ++ rest) = digits ++ rest := by
  obtain ⟨r, rs, rfl, hstop, hx, hX⟩ := hrest
  match digits with
  | [] =>
    cases rs with
    | nil => rfl
    | cons x xs =>
      rw [List.nil_append, skipBase]
      rw [if_neg]
      rintro ⟨rfl, rfl, -⟩
      exact absurd hstop (by decide)
  | [b] =>
    rw [List.singleton_append, skipBase, if_neg]
    rintro ⟨-, -, rfl | rfl⟩
    · exact hx rfl
    · exact hX rfl
  | b :: x :: bs =>
    rw [List.cons_append, List.cons_append, skipBase, if_neg]
    rintro ⟨rfl, -, hletter⟩
    have hdigit := hdigits x (by simp)
    rcases hletter with rfl | rfl
    all_goals exact absurd hdigit (by decide)

/-- White space, a row of digits and a byte that ends it. -/
theorem scanNumber_numeral (before digits rest : List UInt8)
    (hbefore : ∀ b ∈ before, isSpace b = true) (hne : digits ≠ [])
    (hdigits : ∀ b ∈ digits, (digitOf base b).isSome) (hrest : Stops base rest) :
    scanNumber base (before ++ digits ++ rest) = (false, numeral base digits, rest) := by
  obtain ⟨d, ds, rfl⟩ := List.exists_cons_of_ne_nil hne
  have hd := hdigits d List.mem_cons_self
  have hspace : (before ++ (d :: ds) ++ rest).dropWhile isSpace = d :: ds ++ rest := by
    rw [List.append_assoc, List.dropWhile_append_of_pos hbefore, List.cons_append,
      List.dropWhile_cons_of_neg (by simp [digit_not_space hd])]
  have hsign : skipSign (d :: ds ++ rest) = (false, d :: ds ++ rest) := by
    rw [List.cons_append, skipSign, if_neg (digit_not_sign hd).1, if_neg (digit_not_sign hd).2]
  rw [scanNumber, hspace, hsign]
  simp only [skipBase_digits _ _ hdigits hrest, scanDigits_numeral _ _ _ hdigits hrest]
  rfl

theorem strtoul_numeral (before digits rest : List UInt8)
    (hbefore : ∀ b ∈ before, isSpace b = true) (hne : digits ≠ [])
    (hdigits : ∀ b ∈ digits, (digitOf base b).isSome) (hrest : Stops base rest)
    (hsmall : numeral base digits < 2 ^ 64) :
    strtoul base (before ++ digits ++ rest) = some (numeral base digits) := by
  rw [strtoul, scanNumber_numeral before digits rest hbefore hne hdigits hrest]
  obtain ⟨b, bs, rfl, -⟩ := hrest
  simp only [Bool.false_eq_true, if_false]
  rw [if_neg (Nat.not_le.mpr hsmall)]

theorem strtol_numeral (before digits rest : List UInt8)
    (hbefore : ∀ b ∈ before, isSpace b = true) (hne : digits ≠ [])
    (hdigits : ∀ b ∈ digits, (digitOf base b).isSome) (hrest : Stops base rest)
    (hsmall : numeral base digits < 2 ^ 63) :
    strtol base (before ++ digits ++ rest) = some (numeral base digits : ℤ) := by
  rw [strtol, scanNumber_numeral before digits rest hbefore hne hdigits hrest]
  obtain ⟨b, bs, rfl, -⟩ := hrest
  simp only [Bool.false_eq_true, if_false]
  rw [Nat.min_eq_left (Nat.le_sub_one_of_lt hsmall)]

end Scanning

end RetroArch.Library.CString
