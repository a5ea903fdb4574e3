/- The conversions agree on what a string of UTF-16 stands for. -/

import RetroArch.Encodings.Utf

namespace RetroArch.Encodings

open Library.Memory

section Writing

/-- The output after more bytes. -/
def Output.write (o : Output) (bytes : List UInt8) : Output :=
  ⟨o.out.map fun out => out.take o.outPos ++ bytes ++ out.drop (o.outPos + bytes.length),
    o.outPos + bytes.length⟩

/-- There is room for the bytes. -/
def Output.Fits (o : Output) (bytes : List UInt8) : Prop :=
  ∀ out ∈ o.out, o.outPos + bytes.length ≤ out.length

variable {o : Output} {bytes more : List UInt8}

theorem write_nil (o : Output) : o.write [] = o := by
  cases o with
  | mk out outPos =>
    cases out with
    | none => rfl
    | some out =>
      rw [Output.write, Option.map_some, List.append_nil, List.length_nil, Nat.add_zero,
        List.take_append_drop]

theorem write_append (o : Output) (h : o.Fits bytes) :
    (o.write bytes).write more = o.write (bytes ++ more) := by
  cases o with
  | mk out outPos =>
    cases out with
    | none => simp only [Output.write, Option.map_none, List.length_append, Nat.add_assoc]
    | some out =>
      have hroom : outPos + bytes.length ≤ out.length := h out rfl
      have hlength : (out.take outPos ++ bytes).length = outPos + bytes.length := by
        rw [List.length_append, List.length_take]
        omega
      have hdrop : (out.take outPos ++ bytes ++ out.drop (outPos + bytes.length)).drop
          (outPos + bytes.length + more.length) =
            out.drop (outPos + bytes.length + more.length) := by
        rw [← hlength, List.drop_length_add_append, List.drop_drop]
      simp only [Output.write, Option.map_some, List.length_append]
      rw [List.take_left' hlength, hdrop, ← Nat.add_assoc, List.append_assoc _ bytes more]

theorem put_of_fits (value : ℕ) (h : o.Fits [UInt8.ofNat value]) :
    o.put value = some (o.write [UInt8.ofNat value]) := by
  cases o with
  | mk out outPos =>
    cases out with
    | none => rfl
    | some out =>
      have hroom : outPos < out.length := h out rfl
      have hset : out.set outPos (UInt8.ofNat value) =
          out.take outPos ++ [UInt8.ofNat value] ++ out.drop (outPos + 1) := by
        rw [List.set_eq_take_append_cons_drop, if_pos hroom, List.append_assoc]
        rfl
      change (poke out outPos _).map _ = _
      rw [poke_of_lt hroom, Option.map_some, hset]
      rfl

theorem fits_append (h : o.Fits (bytes ++ more)) :
    o.Fits bytes ∧ (o.write bytes).Fits more := by
  constructor
  · intro out hout
    have hroom := h out hout
    rw [List.length_append] at hroom
    omega
  · intro out hout
    obtain ⟨old, hold, rfl⟩ := Option.map_eq_some_iff.mp hout
    have hroom := h old hold
    simp only [List.length_append] at hroom
    simp only [Output.write, List.length_append, List.length_take, List.length_drop]
    omega

end Writing

theorem shiftLeft_or {x y k : ℕ} (h : y < 2 ^ k) : x <<< k ||| y = x * 2 ^ k + y := by
  rw [← Nat.shiftLeft_add_eq_or_of_lt h, Nat.shiftLeft_eq]

theorem and_mask (x k : ℕ) : x &&& (2 ^ k - 1) = x % 2 ^ k := Nat.and_two_pow_sub_one_eq_mod x k

theorem bits_split (q : ℕ) : (q >>> 6) <<< 6 ||| (q &&& 0x3F) = q := by
  have hlt : q &&& 0x3F < 2 ^ 6 := by
    rw [show 0x3F = 2 ^ 6 - 1 from rfl, and_mask]
    exact Nat.mod_lt q (by decide)
  rw [shiftLeft_or hlt, show 0x3F = 2 ^ 6 - 1 from rfl, and_mask, Nat.shiftRight_eq_div_pow]
  omega

theorem shiftLeft_or_shiftLeft (x y k : ℕ) : x <<< k ||| y <<< k = (x ||| y) <<< k := by
  rw [Nat.shiftLeft_or_distrib]

/-- The bytes after the first. -/
def extras (value : ℕ) : ℕ → List UInt8
  | 0 => []
  | n + 1 => UInt8.ofNat (0x80 + ((value >>> (6 * n)) &&& 0x3F)) :: extras value n

/-- The bytes of a code point. -/
def encode (value : ℕ) : List UInt8 :=
  if value < 0x80 then [UInt8.ofNat value]
  else
    UInt8.ofNat (kUtf8Limits.getD (numAdds value - 1) 0 + value >>> (6 * numAdds value)) ::
      extras value (numAdds value)

theorem putAdds_of_fits (value n : ℕ) {o : Output} (h : o.Fits (extras value n)) :
    putAdds value n o = some (o.write (extras value n)) := by
  induction n generalizing o with
  | zero => rw [putAdds, extras, write_nil]
  | succ n ih =>
    obtain ⟨hfirst, hrest⟩ := @fits_append o [_] _ h
    rw [putAdds, put_of_fits _ hfirst, Option.bind_some, ih hrest, write_append _ hfirst]
    rfl

theorem putValue_of_fits {value : ℕ} (hvalue : ¬ value < 0x80) {o : Output}
    (h : o.Fits (encode value)) : putValue value o = some (o.write (encode value)) := by
  rw [encode, if_neg hvalue] at h ⊢
  obtain ⟨hfirst, hrest⟩ := @fits_append o [_] _ h
  rw [putValue, put_of_fits _ hfirst, Option.bind_some, putAdds_of_fits _ _ hrest,
    write_append _ hfirst]
  rfl

theorem length_extras (value n : ℕ) : (extras value n).length = n := by
  induction n with
  | zero => rfl
  | succ n ih => rw [extras, List.length_cons, ih]

theorem numAdds_cases {value : ℕ} (h : value < 0x110000) (hvalue : ¬ value < 0x80) :
    numAdds value = 1 ∧ value < 0x800 ∨ numAdds value = 2 ∧ value < 0x10000 ∨
      numAdds value = 3 := by
  by_cases hone : value < 0x800
  · left
    refine ⟨?_, hone⟩
    simp [numAdds, List.range', hone]
  · by_cases htwo : value < 0x10000
    · right
      left
      refine ⟨?_, htwo⟩
      simp [numAdds, List.range', List.find?, decide_eq_false hone, htwo]
    · right
      right
      have hthree : value < 0x200000 := by omega
      simp [numAdds, List.range', List.find?, decide_eq_false hone, decide_eq_false htwo, hthree]

theorem ascii_byte : ∀ x < 128, leadingOnes (UInt8.ofNat x) = 0 ∧ (UInt8.ofNat x).toNat = x ∧
    UInt8.ofNat x < 128 ∧ UInt8.ofNat x &&& 0xC0 ≠ 0x80 ∧ (x ≠ 0 → UInt8.ofNat x ≠ 0) := by
  decide

theorem first_of_two : ∀ x < 32, leadingOnes (UInt8.ofNat (0xC0 + x)) = 2 ∧
    (UInt8.ofNat (0xC0 + x)).toNat &&& 31 = x ∧ ¬ UInt8.ofNat (0xC0 + x) < 128 ∧
      ¬ UInt8.ofNat (0xC0 + x) ≥ 0xE0 ∧ UInt8.ofNat (0xC0 + x) &&& 0xC0 ≠ 0x80 := by
  decide

theorem first_of_three : ∀ x < 16, leadingOnes (UInt8.ofNat (0xE0 + x)) = 3 ∧
    (UInt8.ofNat (0xE0 + x)).toNat &&& 15 = x ∧ ¬ UInt8.ofNat (0xE0 + x) < 128 ∧
      UInt8.ofNat (0xE0 + x) ≥ 0xE0 ∧ ¬ UInt8.ofNat (0xE0 + x) ≥ 0xF0 ∧
        UInt8.ofNat (0xE0 + x) &&& 0xC0 ≠ 0x80 := by
  decide

theorem first_of_four : ∀ x < 8, leadingOnes (UInt8.ofNat (0xF0 + x)) = 4 ∧
    (UInt8.ofNat (0xF0 + x)).toNat &&& 7 = x ∧ ¬ UInt8.ofNat (0xF0 + x) < 128 ∧
      UInt8.ofNat (0xF0 + x) ≥ 0xE0 ∧ UInt8.ofNat (0xF0 + x) ≥ 0xF0 ∧
        UInt8.ofNat (0xF0 + x) &&& 0xC0 ≠ 0x80 := by
  decide

theorem extra_byte : ∀ y < 64, (UInt8.ofNat (0x80 + y)).toNat &&& 0x3F = y ∧
    UInt8.ofNat (0x80 + y) &&& 0xC0 = 0x80 ∧ UInt8.ofNat (0x80 + y) ≠ 0 := by
  decide

theorem low_lt (q : ℕ) : q &&& 0x3F < 64 := by
  rw [show 0x3F = 2 ^ 6 - 1 from rfl, and_mask]
  exact Nat.mod_lt q (by decide)

theorem shiftRight_lt {value k n : ℕ} (h : value < 2 ^ (n + k)) : value >>> k < 2 ^ n := by
  rw [Nat.shiftRight_eq_div_pow, Nat.div_lt_iff_lt_mul (Nat.two_pow_pos k), ← Nat.pow_add]
  exact h

theorem addExtra_extras (value n : ℕ) :
    addExtra ((value >>> (6 * n)) <<< (6 * n)) ((n - 1) * 6) (extras value n) = value := by
  induction n with
  | zero => rfl
  | succ n ih =>
    have hhigh : (value >>> (6 * (n + 1))) <<< (6 * (n + 1)) =
        ((value >>> (6 * n) >>> 6) <<< 6) <<< (6 * n) := by
      rw [Nat.mul_succ, Nat.shiftRight_add, Nat.add_comm (6 * n) 6, Nat.shiftLeft_add]
    rw [extras, addExtra, (extra_byte _ (low_lt _)).1, hhigh, Nat.add_sub_cancel,
      Nat.mul_comm n 6, shiftLeft_or_shiftLeft, bits_split,
      show 6 * n - 6 = (n - 1) * 6 by omega]
    exact ih

section Decoders

variable {value : ℕ} {rest : List UInt8}

theorem utf8ConvUtf32_first {first : UInt8} {n : ℕ} (room : ℕ)
    (hones : leadingOnes first = n + 1) (hn : 1 ≤ n ∧ n ≤ 3)
    (hbits : first.toNat &&& (1 <<< (6 - n) - 1) = value >>> (6 * n)) :
    utf8ConvUtf32 (room + 1) (first :: (extras value n ++ rest)) =
      value :: utf8ConvUtf32 room rest := by
  have hlength := length_extras value n
  have hextra : (if n + 1 ≠ 0 then n + 1 - 1 else n + 1) = n := by
    rw [if_pos (by omega), Nat.add_sub_cancel]
  have hroom : ¬ 1 + n > (first :: (extras value n ++ rest)).length := by
    rw [List.length_cons, List.length_append, hlength]
    omega
  rw [utf8ConvUtf32]
  dsimp only
  rw [hones, if_neg (by omega), hextra, if_neg hroom, List.take_left' hlength,
    List.drop_left' hlength, show 7 - (n + 1) = 6 - n by omega, hbits, addExtra_extras]

theorem utf8ConvUtf32_encode (h : value < 0x110000) (room : ℕ) (rest : List UInt8) :
    utf8ConvUtf32 (room + 1) (encode value ++ rest) = value :: utf8ConvUtf32 room rest := by
  unfold encode
  split_ifs with hascii
  · obtain ⟨hones, hvalue, -, -, -⟩ := ascii_byte value hascii
    have hbits : value &&& 127 = value := by
      rw [show 127 = 2 ^ 7 - 1 from rfl, and_mask]
      exact Nat.mod_eq_of_lt hascii
    change utf8ConvUtf32 (room + 1) (UInt8.ofNat value :: rest) = _
    rw [utf8ConvUtf32]
    dsimp only
    have hroom : ¬ 1 + 0 > (UInt8.ofNat value :: rest).length := by
      rw [List.length_cons]
      omega
    have hzero : (if (0 : ℕ) ≠ 0 then 0 - 1 else 0) = 0 := rfl
    rw [hones, if_neg (by omega), hzero, if_neg hroom, hvalue]
    change (value &&& 127) <<< 0 :: _ = _
    rw [hbits]
    rfl
  · rw [List.cons_append]
    rcases numAdds_cases h hascii with ⟨hn, hlt⟩ | ⟨hn, hlt⟩ | hn
    · rw [hn]
      obtain ⟨hones, hbits, -⟩ := first_of_two (value >>> 6)
        (shiftRight_lt (k := 6) (n := 5) hlt)
      exact utf8ConvUtf32_first room hones (by decide) hbits
    · rw [hn]
      obtain ⟨hones, hbits, -⟩ := first_of_three (value >>> 12)
        (shiftRight_lt (k := 12) (n := 4) hlt)
      exact utf8ConvUtf32_first room hones (by decide) hbits
    · rw [hn]
      obtain ⟨hones, hbits, -⟩ := first_of_four (value >>> 18)
        (shiftRight_lt (k := 18) (n := 3) (lt_trans h (by decide)))
      exact utf8ConvUtf32_first room hones (by decide) hbits

theorem walkBits_extras (ret n : ℕ) :
    walkBits ret (extras value (n + 1) ++ rest) =
      some (ret <<< 6 ||| ((value >>> (6 * n)) &&& 0x3F), extras value n ++ rest) := by
  rw [extras, List.cons_append, walkBits, utf8Walkbyte, Option.map_some]
  dsimp only
  rw [(extra_byte _ (low_lt _)).1]

theorem rejoin (value k : ℕ) : value % 2 ^ k ||| (value >>> k) <<< k = value := by
  rw [Nat.or_comm, shiftLeft_or (Nat.mod_lt value (Nat.two_pow_pos k)),
    Nat.shiftRight_eq_div_pow, Nat.div_add_mod']

theorem low_bits (q : ℕ) : q &&& 0x3F = q % 64 := and_mask q 6

theorem utf8Walk_two {first : UInt8} (hmore : ¬ first < 128) (hlast : ¬ first ≥ 0xE0)
    (hbits : first.toNat &&& 31 = value >>> 6) :
    utf8Walk (first :: (extras value 1 ++ rest)) = some (value, rest) := by
  rw [utf8Walk, utf8Walkbyte, Option.bind_some]
  dsimp only
  rw [if_neg hmore, walkBits_extras, Option.bind_some]
  dsimp only
  rw [if_neg hlast, hbits]
  have hlow : 0 <<< 6 ||| value >>> (6 * 0) &&& 63 = value % 64 := by
    rw [low_bits, Nat.zero_shiftLeft, Nat.zero_or]
    rfl
  rw [hlow]
  exact congrArg (fun ret => some (ret, rest)) (rejoin value 6)

theorem utf8Walk_three {first : UInt8} (hmore : ¬ first < 128) (hthird : first ≥ 0xE0)
    (hlast : ¬ first ≥ 0xF0) (hbits : first.toNat &&& 15 = value >>> 12) :
    utf8Walk (first :: (extras value 2 ++ rest)) = some (value, rest) := by
  rw [utf8Walk, utf8Walkbyte, Option.bind_some]
  dsimp only
  rw [if_neg hmore, walkBits_extras, Option.bind_some]
  dsimp only
  rw [if_pos hthird, walkBits_extras, Option.bind_some]
  dsimp only
  rw [if_neg hlast, hbits]
  have hlow : (0 <<< 6 ||| value >>> (6 * 1) &&& 63) <<< 6 ||| value >>> (6 * 0) &&& 63 =
      value % 4096 := by
    rw [shiftLeft_or (low_lt _), low_bits, low_bits, Nat.zero_shiftLeft, Nat.zero_or,
      Nat.shiftRight_eq_div_pow, Nat.shiftRight_eq_div_pow]
    omega
  rw [hlow]
  exact congrArg (fun ret => some (ret, rest)) (rejoin value 12)

theorem utf8Walk_four {first : UInt8} (hmore : ¬ first < 128) (hthird : first ≥ 0xE0)
    (hfourth : first ≥ 0xF0) (hbits : first.toNat &&& 7 = value >>> 18) :
    utf8Walk (first :: (extras value 3 ++ rest)) = some (value, rest) := by
  rw [utf8Walk, utf8Walkbyte, Option.bind_some]
  dsimp only
  rw [if_neg hmore, walkBits_extras, Option.bind_some]
  dsimp only
  rw [if_pos hthird, walkBits_extras, Option.bind_some]
  dsimp only
  rw [if_pos hfourth, walkBits_extras, Option.map_some]
  dsimp only
  rw [hbits]
  have hlow : ((0 <<< 6 ||| value >>> (6 * 2) &&& 63) <<< 6 ||| value >>> (6 * 1) &&& 63) <<< 6 |||
      value >>> (6 * 0) &&& 63 = value % 262144 := by
    rw [shiftLeft_or (low_lt _), shiftLeft_or (low_lt _), low_bits, low_bits, low_bits,
      Nat.zero_shiftLeft, Nat.zero_or, Nat.shiftRight_eq_div_pow, Nat.shiftRight_eq_div_pow,
      Nat.shiftRight_eq_div_pow]
    omega
  rw [hlow]
  exact congrArg (fun ret => some (ret, rest)) (rejoin value 18)

theorem utf8Walk_encode (h : value < 0x110000) (rest : List UInt8) :
    utf8Walk (encode value ++ rest) = some (value, rest) := by
  unfold encode
  split_ifs with hascii
  · obtain ⟨-, hvalue, hbelow, -⟩ := ascii_byte value hascii
    change utf8Walk (UInt8.ofNat value :: rest) = _
    rw [utf8Walk, utf8Walkbyte, Option.bind_some]
    dsimp only
    rw [if_pos hbelow, hvalue]
  · rw [List.cons_append]
    rcases numAdds_cases h hascii with ⟨hn, hlt⟩ | ⟨hn, hlt⟩ | hn
    · rw [hn]
      obtain ⟨-, hbits, hmore, hlast, -⟩ := first_of_two (value >>> 6)
        (shiftRight_lt (k := 6) (n := 5) hlt)
      exact utf8Walk_two hmore hlast hbits
    · rw [hn]
      obtain ⟨-, hbits, hmore, hthird, hlast, -⟩ := first_of_three (value >>> 12)
        (shiftRight_lt (k := 12) (n := 4) hlt)
      exact utf8Walk_three hmore hthird hlast hbits
    · rw [hn]
      obtain ⟨-, hbits, hmore, hthird, hfourth, -⟩ := first_of_four (value >>> 18)
        (shiftRight_lt (k := 18) (n := 3) (lt_trans h (by decide)))
      exact utf8Walk_four hmore hthird hfourth hbits

theorem utf8len_extras (value n : ℕ) (rest : List UInt8) :
    utf8len (extras value n ++ rest) = utf8len rest := by
  induction n with
  | zero => rfl
  | succ n ih =>
    obtain ⟨-, hextra, hnul⟩ := extra_byte _ (low_lt (value >>> (6 * n)))
    rw [extras, List.cons_append, utf8len, if_neg hnul, if_neg (not_not.mpr hextra), ih]

theorem utf8len_first {first : UInt8} (hfirst : first &&& 0xC0 ≠ 0x80) (hnul : first ≠ 0) (n : ℕ) :
    utf8len (first :: (extras value n ++ rest)) = utf8len rest + 1 := by
  rw [utf8len, if_neg hnul, if_pos hfirst, utf8len_extras]

theorem ne_zero_of_not_lt {b : UInt8} (h : ¬ b < 128) : b ≠ 0 := by
  rintro rfl
  exact h (by decide)

theorem utf8len_encode (h : value < 0x110000) (hne : value ≠ 0) (rest : List UInt8) :
    utf8len (encode value ++ rest) = utf8len rest + 1 := by
  unfold encode
  split_ifs with hascii
  · obtain ⟨-, -, -, hfirst, hnul⟩ := ascii_byte value hascii
    change utf8len (UInt8.ofNat value :: rest) = _
    rw [utf8len, if_neg (hnul hne), if_pos hfirst]
  · rw [List.cons_append]
    rcases numAdds_cases h hascii with ⟨hn, hlt⟩ | ⟨hn, hlt⟩ | hn
    · rw [hn]
      obtain ⟨-, -, hmore, -, hfirst⟩ := first_of_two (value >>> 6)
        (shiftRight_lt (k := 6) (n := 5) hlt)
      exact utf8len_first hfirst (ne_zero_of_not_lt hmore) 1
    · rw [hn]
      obtain ⟨-, -, hmore, -, -, hfirst⟩ := first_of_three (value >>> 12)
        (shiftRight_lt (k := 12) (n := 4) hlt)
      exact utf8len_first hfirst (ne_zero_of_not_lt hmore) 2
    · rw [hn]
      obtain ⟨-, -, hmore, -, -, hfirst⟩ := first_of_four (value >>> 18)
        (shiftRight_lt (k := 18) (n := 3) (lt_trans h (by decide)))
      exact utf8len_first hfirst (ne_zero_of_not_lt hmore) 3

end Decoders

section Strings

/-- The bytes of a text. -/
def encodeAll (cps : List ℕ) : List UInt8 := cps.flatMap encode

variable {cps : List ℕ}

theorem utf8ConvUtf32_encodeAll (h : ∀ c ∈ cps, c < 0x110000) {room : ℕ}
    (hroom : cps.length ≤ room) : utf8ConvUtf32 room (encodeAll cps) = cps := by
  induction cps generalizing room with
  | nil => cases room <;> rfl
  | cons c cps ih =>
    obtain ⟨room, rfl⟩ : ∃ n, room = n + 1 := by
      rw [List.length_cons] at hroom
      exact ⟨room - 1, by omega⟩
    rw [encodeAll, List.flatMap_cons, utf8ConvUtf32_encode (h c List.mem_cons_self)]
    congr 1
    exact ih (fun c hc => h c (List.mem_cons_of_mem _ hc)) (Nat.le_of_succ_le_succ hroom)

theorem utf8Walks_encodeAll (h : ∀ c ∈ cps, c < 0x110000) :
    utf8Walks cps.length (encodeAll cps) = some (cps, []) := by
  induction cps with
  | nil => rfl
  | cons c cps ih =>
    rw [encodeAll, List.flatMap_cons, List.length_cons, utf8Walks,
      utf8Walk_encode (h c List.mem_cons_self), Option.bind_some]
    dsimp only
    rw [← encodeAll, ih fun c hc => h c (List.mem_cons_of_mem _ hc)]
    rfl

theorem utf8len_encodeAll (h : ∀ c ∈ cps, c < 0x110000) (hnul : 0 ∉ cps) (rest : List UInt8) :
    utf8len (encodeAll cps ++ 0 :: rest) = cps.length := by
  induction cps with
  | nil => rfl
  | cons c cps ih =>
    rw [List.mem_cons, not_or] at hnul
    rw [encodeAll, List.flatMap_cons, List.append_assoc,
      utf8len_encode (h c List.mem_cons_self) (Ne.symm hnul.1), ← encodeAll,
      ih (fun c hc => h c (List.mem_cons_of_mem _ hc)) hnul.2, List.length_cons]

/-- What the conversion writes, and whether it comes to the end. -/
structure Converts (units : List UInt16) (valid : Bool) (cps : List ℕ) : Prop where
  below : ∀ c ∈ cps, c < 0x110000
  written : ∀ o : Output, o.Fits (encodeAll cps) →
    utf16ConvUtf8 units o = some (valid, o.write (encodeAll cps))

theorem Converts.stop {units : List UInt16}
    (h : ∀ o, utf16ConvUtf8 units o = some (false, o)) : Converts units false [] := by
  refine ⟨fun c hc => absurd hc List.not_mem_nil, ?_⟩
  intro o _
  rw [h]
  exact congrArg (fun o => some (false, o)) (write_nil o).symm

theorem Converts.cons {units rest : List UInt16} {valid : Bool} {c : ℕ} (hc : c < 0x110000)
    (h : Converts rest valid cps)
    (hput : ∀ o : Output, o.Fits (encode c) →
      utf16ConvUtf8 units o = utf16ConvUtf8 rest (o.write (encode c))) :
    Converts units valid (c :: cps) := by
  constructor
  · intro d hd
    rcases List.mem_cons.mp hd with rfl | hd
    · exact hc
    · exact h.below d hd
  · intro o hfits
    obtain ⟨hfirst, hrest⟩ := fits_append hfits
    rw [hput o hfirst, h.written _ hrest, write_append o hfirst]
    rfl

end Strings

section Agreement

variable {unit low : UInt16} {rest : List UInt16} {o : Output}

theorem conv_unit (hunit : unit.toNat < 0xD800 ∨ 0xE000 ≤ unit.toNat)
    (hfits : o.Fits (encode unit.toNat)) :
    utf16ConvUtf8 (unit :: rest) o = utf16ConvUtf8 rest (o.write (encode unit.toNat)) := by
  by_cases hascii : unit.toNat < 0x80
  · have hbyte : encode unit.toNat = [UInt8.ofNat unit.toNat] := if_pos hascii
    rw [hbyte] at hfits ⊢
    rw [utf16ConvUtf8.eq_def]
    dsimp only
    rw [if_pos hascii, put_of_fits _ hfits, Option.bind_some]
  · rw [utf16ConvUtf8.eq_def]
    dsimp only
    rw [if_neg hascii, if_neg (by omega), putValue_of_fits hascii hfits, Option.bind_some]

theorem pair_value (unit : UInt16) (hlow : 0xDC00 ≤ low.toNat ∧ low.toNat < 0xE000) :
    ((unit.toNat - 0xD800) <<< 10 ||| (low.toNat - 0xDC00)) + 0x10000 =
      0x10000 + (unit.toNat - 0xD800) * 0x400 + (low.toNat - 0xDC00) := by
  have hlt : low.toNat - 0xDC00 < 2 ^ 10 := by omega
  rw [shiftLeft_or hlt]
  omega

theorem conv_pair (hhigh : 0xD800 ≤ unit.toNat ∧ unit.toNat < 0xDC00)
    (hlow : 0xDC00 ≤ low.toNat ∧ low.toNat < 0xE000)
    (hfits : o.Fits (encode (0x10000 + (unit.toNat - 0xD800) * 0x400 + (low.toNat - 0xDC00)))) :
    utf16ConvUtf8 (unit :: low :: rest) o = utf16ConvUtf8 rest
      (o.write (encode (0x10000 + (unit.toNat - 0xD800) * 0x400 + (low.toNat - 0xDC00)))) := by
  rw [utf16ConvUtf8.eq_def]
  dsimp only
  rw [if_neg (by omega), if_pos (by omega), if_neg (by omega), if_neg (by omega),
    pair_value unit hlow, putValue_of_fits (by omega) hfits, Option.bind_some]

theorem conv_unpaired (hunit : 0xD800 ≤ unit.toNat ∧ unit.toNat < 0xE000)
    (hrest : unit.toNat < 0xDC00 → ∀ low ∈ rest.head?,
      ¬ (0xDC00 ≤ low.toNat ∧ low.toNat < 0xE000)) :
    utf16ConvUtf8 (unit :: rest) o = some (false, o) := by
  cases rest with
  | nil =>
    rw [utf16ConvUtf8.eq_def]
    dsimp only
    rw [if_neg (by omega), if_pos (by omega)]
    split_ifs <;> rfl
  | cons low rest =>
    rw [utf16ConvUtf8.eq_def]
    dsimp only
    rw [if_neg (by omega), if_pos (by omega)]
    by_cases hhigh : unit.toNat < 0xDC00
    · have hlow := hrest hhigh low rfl
      rw [if_neg (by omega), if_pos (by omega)]
    · rw [if_pos (by omega)]

theorem converts (units : List UInt16) :
    (∃ cps, codePoints units = some cps ∧ Converts units true cps) ∨
      codePoints units = none ∧ ∃ cps, Converts units false cps := by
  induction units using codePoints.induct with
  | case1 =>
    refine .inl ⟨[], rfl, fun c hc => absurd hc List.not_mem_nil, ?_⟩
    intro o _
    exact congrArg (fun o => some (true, o)) (write_nil o).symm
  | case2 unit rest hunit ih =>
    have hlt : unit.toNat < 2 ^ 16 := unit.toNat_lt
    rw [codePoints.eq_def]
    dsimp only
    rw [if_pos hunit]
    rcases ih with ⟨cps, hcps, hconv⟩ | ⟨hnone, cps, hconv⟩
    · refine .inl ⟨unit.toNat :: cps, by rw [hcps]; rfl, ?_⟩
      exact hconv.cons (by omega) fun o hfits => conv_unit hunit hfits
    · refine .inr ⟨by rw [hnone]; rfl, unit.toNat :: cps, ?_⟩
      exact hconv.cons (by omega) fun o hfits => conv_unit hunit hfits
  | case3 unit hunit hhigh =>
    rw [codePoints.eq_def]
    dsimp only
    rw [if_neg hunit, if_pos hhigh]
    refine .inr ⟨rfl, [], .stop fun o => conv_unpaired (by omega) ?_⟩
    intro _ low hlow
    cases hlow
  | case4 unit hunit hhigh low rest hlow ih =>
    rw [codePoints.eq_def]
    dsimp only
    rw [if_neg hunit, if_pos hhigh]
    rw [if_pos hlow]
    rcases ih with ⟨cps, hcps, hconv⟩ | ⟨hnone, cps, hconv⟩
    · refine .inl ⟨_ :: cps, by rw [hcps]; rfl, ?_⟩
      exact hconv.cons (by omega) fun o hfits => conv_pair (by omega) hlow hfits
    · refine .inr ⟨by rw [hnone]; rfl,
        (0x10000 + (unit.toNat - 0xD800) * 0x400 + (low.toNat - 0xDC00)) :: cps, ?_⟩
      exact hconv.cons (by omega) fun o hfits => conv_pair (by omega) hlow hfits
  | case5 unit hunit hhigh low rest hlow =>
    rw [codePoints.eq_def]
    dsimp only
    rw [if_neg hunit, if_pos hhigh]
    rw [if_neg hlow]
    refine .inr ⟨rfl, [], .stop fun o => conv_unpaired (by omega) ?_⟩
    intro _ other hother
    rw [← Option.some.inj hother]
    exact hlow
  | case6 unit rest hunit hhigh =>
    rw [codePoints.eq_def]
    dsimp only
    rw [if_neg hunit, if_neg hhigh]
    exact .inr ⟨rfl, [], .stop fun o => conv_unpaired (by omega) fun h => absurd h hhigh⟩

/-- The conversions of a valid string: measured, then written into a buffer of that length, and
read back from there in three ways. -/
def Agrees (units : List UInt16) (cps : List ℕ) : Prop :=
  ∃ bytes : List UInt8,
    utf16ConvUtf8 units ⟨none, 0⟩ = some (true, ⟨none, bytes.length⟩) ∧
    (∀ out : List UInt8, out.length = bytes.length →
      utf16ConvUtf8 units ⟨some out, 0⟩ = some (true, ⟨some bytes, bytes.length⟩)) ∧
    (∀ room, cps.length ≤ room → utf8ConvUtf32 room bytes = cps) ∧
    utf8Walks cps.length bytes = some (cps, []) ∧
    (0 ∉ cps → ∀ rest, utf8len (bytes ++ 0 :: rest) = cps.length)

/-- A conversion that fails, also into a buffer of the length it asks for. -/
def Refused (units : List UInt16) : Prop :=
  ∃ outChars, utf16ConvUtf8 units ⟨none, 0⟩ = some (false, ⟨none, outChars⟩) ∧
    ∀ out : List UInt8, outChars ≤ out.length →
      ∃ o, utf16ConvUtf8 units ⟨some out, 0⟩ = some (false, o)

/-- A string of UTF-16 stands for the same text in all conversions, and one with an unpaired
surrogate is refused. -/
theorem utf_agrees (units : List UInt16) :
    match codePoints units with
    | some cps => Agrees units cps
    | none => Refused units := by
  have hnull : ∀ bytes : List UInt8, Output.Fits ⟨none, 0⟩ bytes := by
    intro bytes out hout
    cases hout
  rcases converts units with ⟨cps, hcps, hconv⟩ | ⟨hnone, cps, hconv⟩
  · rw [hcps]
    refine ⟨encodeAll cps, ?_, ?_, fun room => utf8ConvUtf32_encodeAll hconv.below,
      utf8Walks_encodeAll hconv.below, utf8len_encodeAll hconv.below⟩
    · rw [hconv.written _ (hnull _), Output.write, Nat.zero_add]
      rfl
    · intro out hout
      have hfits : Output.Fits ⟨some out, 0⟩ (encodeAll cps) := by
        intro old hold
        obtain rfl := Option.some.inj hold
        exact le_of_eq (by rw [Nat.zero_add, hout])
      rw [hconv.written _ hfits, Output.write, Nat.zero_add, Option.map_some, List.take_zero,
        List.nil_append, ← hout, List.drop_length, List.append_nil]
  · rw [hnone]
    refine ⟨(encodeAll cps).length, ?_, ?_⟩
    · rw [hconv.written _ (hnull _), Output.write, Nat.zero_add]
      rfl
    · intro out hout
      have hfits : Output.Fits ⟨some out, 0⟩ (encodeAll cps) := by
        intro old hold
        obtain rfl := Option.some.inj hold
        rw [Nat.zero_add]
        exact hout
      exact ⟨_, hconv.written _ hfits⟩

end Agreement

end RetroArch.Encodings
