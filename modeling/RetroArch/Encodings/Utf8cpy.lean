/- `utf8cpy`: the front of a text that has room, in whole characters. -/

import RetroArch.Encodings.UtfAgreement
import RetroArch.Library.Chunks

namespace RetroArch.Encodings

open Library.Memory Library.Chunks

/-- `(*sb & 0xC0) == 0x80` -/
def isContinuation (b : UInt8) : Bool := b &&& 0xC0 == 0x80

/-- What is left of the text after as many characters; no result is a byte read past the end. -/
def skipCharacters : (chars : ℕ) → (sb : List UInt8) → Option (List UInt8)
  | _, [] => none
  | 0, sb => some sb
  | chars + 1, b :: rest =>
    if b = 0 then some (b :: rest)
    else skipCharacters chars (rest.dropWhile isContinuation)

/-- The memory at `d` and the result; `s` may be `NULL`. -/
def utf8cpy (d : List UInt8) (dLen : ℕ) (s : Option (List UInt8)) (chars : ℕ) :
    Option (List UInt8 × ℕ) :=
  match s with
  | none => some (d, 0)
  | some s =>
    let limit := (dLen + 2 ^ 64 - 1) % 2 ^ 64
    (skipCharacters chars s).bind fun sb =>
    let skipped := s.length - sb.length
    (if skipped > limit then back isContinuation s limit else some skipped).bind fun n =>
    (peeks s 0 n).bind fun bytes =>
    (pokes d 0 bytes).bind fun d =>
    (poke d n 0).map fun d => (d, n)

section Characters

variable {c : ℕ} {cps : List ℕ}

/-- A code point that is no surrogate and not the terminator. -/
def IsCharacter (c : ℕ) : Prop := c < 0x110000 ∧ (c < 0xD800 ∨ 0xE000 ≤ c) ∧ c ≠ 0

theorem extras_continue (value n : ℕ) : ∀ b ∈ extras value n, isContinuation b = true := by
  induction n with
  | zero => exact fun b hb => nomatch hb
  | succ n ih =>
    intro b hb
    rcases List.mem_cons.mp hb with rfl | hb
    · obtain ⟨-, hextra, -⟩ := extra_byte _ (low_lt (value >>> (6 * n)))
      rw [isContinuation, hextra]
      rfl
    · exact ih b hb

theorem encode_chunk (hc : IsCharacter c) :
    ∃ head tail, encode c = head :: tail ∧ isContinuation head = false ∧
      (∀ b ∈ tail, isContinuation b = true) ∧ head ≠ 0 := by
  obtain ⟨hbelow, -, hne⟩ := hc
  have hbegins : ∀ head : UInt8, head &&& 0xC0 ≠ 0x80 → isContinuation head = false := by
    intro head hhead
    exact beq_eq_false_iff_ne.mpr hhead
  unfold encode
  split_ifs with hascii
  · obtain ⟨-, -, -, hfirst, hnul⟩ := ascii_byte c hascii
    exact ⟨_, [], rfl, hbegins _ hfirst, fun _ hb => absurd hb List.not_mem_nil, hnul hne⟩
  · refine ⟨_, _, rfl, ?_, extras_continue c _, ?_⟩
    all_goals
      rcases numAdds_cases hbelow hascii with ⟨hn, hlt⟩ | ⟨hn, hlt⟩ | hn
    · obtain ⟨-, -, -, -, hfirst⟩ := first_of_two (c >>> 6)
        (@shiftRight_lt c 6 5 hlt)
      rw [hn]
      exact hbegins _ hfirst
    · obtain ⟨-, -, -, -, -, hfirst⟩ := first_of_three (c >>> 12)
        (@shiftRight_lt c 12 4 hlt)
      rw [hn]
      exact hbegins _ hfirst
    · obtain ⟨-, -, -, -, -, hfirst⟩ := first_of_four (c >>> 18)
        (@shiftRight_lt c 18 3 (lt_trans hbelow (by decide)))
      rw [hn]
      exact hbegins _ hfirst
    · obtain ⟨-, -, hmore, -⟩ := first_of_two (c >>> 6) (@shiftRight_lt c 6 5 hlt)
      rw [hn]
      exact ne_zero_of_not_lt hmore
    · obtain ⟨-, -, hmore, -⟩ := first_of_three (c >>> 12) (@shiftRight_lt c 12 4 hlt)
      rw [hn]
      exact ne_zero_of_not_lt hmore
    · obtain ⟨-, -, hmore, -⟩ := first_of_four (c >>> 18)
        (@shiftRight_lt c 18 3 (lt_trans hbelow (by decide)))
      rw [hn]
      exact ne_zero_of_not_lt hmore

theorem chunks_of_characters (h : ∀ c ∈ cps, IsCharacter c) :
    ∀ chunk ∈ cps.map encode, Chunk isContinuation chunk := by
  intro chunk hchunk
  obtain ⟨c, hc, rfl⟩ := List.mem_map.mp hchunk
  obtain ⟨head, tail, hencode, hhead, htail, -⟩ := encode_chunk (h c hc)
  exact ⟨head, tail, hencode, hhead, htail⟩

theorem encodeAll_eq (cps : List ℕ) : encodeAll cps = (cps.map encode).flatten := rfl

theorem not_continuation_behind (h : ∀ c ∈ cps, IsCharacter c) (behind : List UInt8) :
    ∃ stop rest, encodeAll cps ++ 0 :: behind = stop :: rest ∧ isContinuation stop = false := by
  cases cps with
  | nil => exact ⟨0, behind, rfl, rfl⟩
  | cons c cps =>
    obtain ⟨head, tail, hencode, hhead, -⟩ := encode_chunk (h c List.mem_cons_self)
    refine ⟨head, tail ++ (encodeAll cps ++ 0 :: behind), ?_, hhead⟩
    rw [encodeAll, List.flatMap_cons, hencode, List.append_assoc, List.cons_append]
    rfl

theorem skipCharacters_encodeAll (h : ∀ c ∈ cps, IsCharacter c) (chars : ℕ)
    (behind : List UInt8) :
    skipCharacters chars (encodeAll cps ++ 0 :: behind) =
      some (encodeAll (cps.drop chars) ++ 0 :: behind) := by
  induction cps generalizing chars with
  | nil =>
    rw [List.drop_nil]
    cases chars with
    | zero => rfl
    | succ chars => exact if_pos rfl
  | cons c cps ih =>
    have hrest := fun c hc => h c (List.mem_cons_of_mem _ hc)
    obtain ⟨head, tail, hencode, -, htail, hne⟩ := encode_chunk (h c List.mem_cons_self)
    rw [encodeAll, List.flatMap_cons, hencode, List.append_assoc, List.cons_append]
    cases chars with
    | zero =>
      rw [skipCharacters, List.drop_zero, encodeAll, List.flatMap_cons, hencode,
        List.append_assoc, List.cons_append]
      exact List.cons_ne_nil _ _
    | succ chars =>
      obtain ⟨stop, rest, hstop, hcontinues⟩ := not_continuation_behind hrest behind
      rw [skipCharacters, if_neg hne, ← encodeAll, hstop, dropWhile_tail htail hcontinues,
        ← hstop, ih hrest, List.drop_succ_cons]

end Characters

/-- The characters in front of a text that are at most so many and take at most so many bytes. -/
structure LongestFront (cps : List ℕ) (chars room : ℕ) (front : List ℕ) : Prop where
  begins : front <+: cps
  characters : front.length ≤ chars
  bytes : (encodeAll front).length ≤ room
  longest : ∀ other, other <+: cps → other.length ≤ chars → (encodeAll other).length ≤ room →
    other <+: front

theorem longestFront_take {cps : List ℕ} {chars room k : ℕ}
    (hchars : k ≤ chars) (hroom : (encodeAll (cps.take k)).length ≤ room)
    (hmax : ∀ j ≤ cps.length, j ≤ chars → (encodeAll (cps.take j)).length ≤ room → j ≤ k) :
    LongestFront cps chars room (cps.take k) := by
  refine ⟨List.take_prefix _ _, ?_, hroom, ?_⟩
  · rw [List.length_take]
    exact Nat.le_trans (Nat.min_le_left _ _) hchars
  · intro other hother hlen hfits
    have htake := List.prefix_iff_eq_take.mp hother
    rw [htake] at hfits
    rw [htake]
    exact (List.take_prefix_take_left (hmax _ hother.length_le hlen hfits))

/-- `d` has at least the bytes it is said to have; what is behind the terminator of `s` is not
read. -/
theorem utf8cpy_longest (cps : List ℕ) (hcps : ∀ c ∈ cps, IsCharacter c) (behind d : List UInt8)
    (dLen chars : ℕ) (hlow : 1 ≤ dLen) (hhigh : dLen < 2 ^ 64) (hd : dLen ≤ d.length) :
    ∃ front, LongestFront cps chars (dLen - 1) front ∧
      utf8cpy d dLen (some (encodeAll cps ++ 0 :: behind)) chars =
        some (encodeAll front ++ 0 :: d.drop ((encodeAll front).length + 1),
          (encodeAll front).length) := by
  have hlimit : (dLen + 2 ^ 64 - 1) % 2 ^ 64 = dLen - 1 := by omega
  set text := encodeAll cps ++ 0 :: behind with htext
  have hsplit : encodeAll (cps.take chars) ++ encodeAll (cps.drop chars) = encodeAll cps := by
    rw [encodeAll, encodeAll, encodeAll, ← List.flatMap_append, List.take_append_drop]
  have hskipped : text.length - (encodeAll (cps.drop chars) ++ 0 :: behind).length =
      (encodeAll (cps.take chars)).length := by
    rw [htext, ← hsplit, List.append_assoc, List.length_append, Nat.add_sub_cancel]
  -- where the copy ends, as a number of characters
  have hend : ∃ k, LongestFront cps chars (dLen - 1) (cps.take k) ∧
      (if (encodeAll (cps.take chars)).length > dLen - 1 then back isContinuation text (dLen - 1)
        else some (encodeAll (cps.take chars)).length) =
        some (encodeAll (cps.take k)).length := by
    by_cases hlong : (encodeAll (cps.take chars)).length > dLen - 1
    · rw [if_pos hlong]
      have hinside : dLen - 1 ≤ (cps.map encode).flatten.length := by
        have hlen := congrArg List.length hsplit
        rw [List.length_append, encodeAll_eq cps] at hlen
        omega
      have hback := @back_chunks _ _ _ _ (chunks_of_characters hcps) 0 behind rfl hinside
      have hbounds := length_take_whole (cps.map encode) (dLen - 1)
      have hle := whole_le_length (cps.map encode) (dLen - 1)
      set k := whole (cps.map encode) (dLen - 1) with hk
      rw [← List.map_take, ← encodeAll_eq] at hbounds hback
      rw [List.length_map] at hle
      have hmax : ∀ j ≤ cps.length, (encodeAll (cps.take j)).length ≤ dLen - 1 → j ≤ k := by
        intro j hj hfits
        apply le_whole (by rw [List.length_map]; exact hj)
        rw [← List.map_take]
        exact hfits
      have hchars : k ≤ chars := by
        by_contra hmore
        have hfront : cps.take chars <+: cps.take k :=
          List.take_prefix_take_left (Nat.le_of_not_le hmore)
        obtain ⟨more, hmore⟩ := hfront
        rw [← hmore, encodeAll, List.flatMap_append, List.length_append, ← encodeAll] at hbounds
        omega
      refine ⟨k, longestFront_take hchars hbounds fun j hj _ => hmax j hj, ?_⟩
      rw [encodeAll_eq cps] at htext
      rw [htext]
      exact hback
    · rw [if_neg hlong]
      refine ⟨min chars cps.length, ?_, ?_⟩
      · apply longestFront_take (Nat.min_le_left _ _)
        · rw [← List.take_eq_take_min]
          exact Nat.not_lt.mp hlong
        · intro j hj hchars _
          exact Nat.le_min.mpr ⟨hchars, hj⟩
      · rw [← List.take_eq_take_min]
  obtain ⟨k, hfront, hend⟩ := hend
  refine ⟨cps.take k, hfront, ?_⟩
  set copied := encodeAll (cps.take k) with hcopied
  have hroom : copied.length ≤ dLen - 1 := hfront.bytes
  have hprefix : text.take copied.length = copied := by
    have hwhole : encodeAll cps = copied ++ encodeAll (cps.drop k) := by
      rw [hcopied, encodeAll, encodeAll, encodeAll, ← List.flatMap_append, List.take_append_drop]
    rw [htext, hwhole, List.append_assoc, List.take_left]
  have hpeeks : peeks text 0 copied.length = some copied := by
    rw [peeks_of_le, List.drop_zero, hprefix]
    rw [Nat.zero_add, ← hprefix, List.length_take]
    exact Nat.min_le_right _ _
  have hpokes : pokes d 0 copied = some (copied ++ d.drop copied.length) := by
    rw [pokes, if_pos (by omega), List.take_zero, List.nil_append, Nat.zero_add]
  have hpoke : poke (copied ++ d.drop copied.length) copied.length 0 =
      some (copied ++ 0 :: d.drop (copied.length + 1)) := by
    have hlt : copied.length < d.length := by omega
    have hplace : copied.length < (copied ++ d.drop copied.length).length := by
      rw [List.length_append, List.length_drop]
      omega
    rw [poke_of_lt hplace, List.drop_eq_getElem_cons hlt, List.set_append_right _ _ (Nat.le_refl _),
      Nat.sub_self, List.set_cons_zero]
  rw [utf8cpy]
  dsimp only
  rw [skipCharacters_encodeAll hcps, Option.bind_some, hskipped, hlimit, hend, Option.bind_some,
    hpeeks, Option.bind_some, hpokes, Option.bind_some, hpoke, Option.map_some]

/-- Of two characters of two bytes each, the second of which has no room. -/
theorem utf8cpy_half : ∃ front, LongestFront [0xE9, 0xE8] 5 3 front ∧
    utf8cpy [1, 1, 1, 1] 4 (some (encodeAll [0xE9, 0xE8] ++ [0])) 5 =
      some (encodeAll front ++ 0 :: [1, 1, 1, 1].drop ((encodeAll front).length + 1),
        (encodeAll front).length) := by
  apply utf8cpy_longest [0xE9, 0xE8] _ [] [1, 1, 1, 1] 4 5 (by decide) (by decide) (by decide)
  intro c hc
  rcases List.mem_cons.mp hc with rfl | hc
  · exact ⟨by decide, Or.inl (by decide), by decide⟩
  · obtain rfl := List.mem_singleton.mp hc
    exact ⟨by decide, Or.inl (by decide), by decide⟩

end RetroArch.Encodings
