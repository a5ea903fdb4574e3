/- Conversions between UTF-16, UTF-8 and code points. -/

import RetroArch.Library.Memory

namespace RetroArch.Encodings

open Library.Memory

/-- A byte has no bits left after eight shifts. -/
def leadingOnes (c : UInt8) : ℕ := count 8 c 0
where
  count : ℕ → UInt8 → ℕ → ℕ
    | 0, _, ones => ones
    | left + 1, c, ones => if c &&& 0x80 ≠ 0 then count left (c <<< 1) (ones + 1) else ones

/-- The loop over the bytes that follow the first one. -/
def addExtra : ℕ → ℕ → List UInt8 → ℕ
  | c, _, [] => c
  | c, shift, b :: rest => addExtra (c ||| (b.toNat &&& 0x3f) <<< shift) (shift - 6) rest

/-- The characters written, of which there is room for `outChars`. -/
def utf8ConvUtf32 : (outChars : ℕ) → (inBytes : List UInt8) → List ℕ
  | 0, _ => []
  | _, [] => []
  | outChars + 1, first :: rest =>
    let ones := leadingOnes first
    if ones > 6 ∨ ones = 1 then []
    else
      let extra := if ones ≠ 0 then ones - 1 else ones
      if 1 + extra > (first :: rest).length then []
      else
        let shift := (extra - 1) * 6
        let c := (first.toNat &&& (1 <<< (7 - ones) - 1)) <<< (6 * extra)
        addExtra c shift (rest.take extra) :: utf8ConvUtf32 outChars (rest.drop extra)

/-- Up to the terminator. -/
def utf8len : List UInt8 → ℕ
  | [] => 0
  | b :: rest =>
    if b = 0 then 0
    else if b &&& 0xC0 ≠ 0x80 then utf8len rest + 1
    else utf8len rest

def utf8Walkbyte : List UInt8 → Option (UInt8 × List UInt8)
  | [] => none
  | b :: rest => some (b, rest)

/-- The next six bits. -/
def walkBits (ret : ℕ) (string : List UInt8) : Option (ℕ × List UInt8) :=
  (utf8Walkbyte string).map fun (b, rest) => (ret <<< 6 ||| (b.toNat &&& 0x3F), rest)

/-- No result is a byte read past the end. -/
def utf8Walk (string : List UInt8) : Option (ℕ × List UInt8) :=
  (utf8Walkbyte string).bind fun (first, string) =>
    if first < 128 then some (first.toNat, string)
    else
      (walkBits 0 string).bind fun (ret, string) =>
        if first ≥ 0xE0 then
          (walkBits ret string).bind fun (ret, string) =>
            if first ≥ 0xF0 then
              (walkBits ret string).map fun (ret, string) =>
                (ret ||| (first.toNat &&& 7) <<< 18, string)
            else some (ret ||| (first.toNat &&& 15) <<< 12, string)
        else some (ret ||| (first.toNat &&& 31) <<< 6, string)

def utf8Walks : ℕ → List UInt8 → Option (List ℕ × List UInt8)
  | 0, string => some ([], string)
  | n + 1, string =>
    (utf8Walk string).bind fun (c, string) =>
      (utf8Walks n string).map fun (cs, string) => (c :: cs, string)

/-- `out`, which may be `NULL`, with the place of the next byte. -/
structure Output where
  out : Option (List UInt8)
  outPos : ℕ
  deriving DecidableEq

/-- No result is a write outside of `out`. -/
def Output.put (o : Output) (value : ℕ) : Option Output :=
  match o.out with
  | none => some { o with outPos := o.outPos + 1 }
  | some out => (poke out o.outPos (UInt8.ofNat value)).map fun out => ⟨some out, o.outPos + 1⟩

def kUtf8Limits : List ℕ := [0xC0, 0xE0, 0xF0, 0xF8, 0xFC]

def numAdds (value : ℕ) : ℕ :=
  ((List.range' 1 4).find? fun n => decide (value < 1 <<< (n * 5 + 6))).getD 5

def putAdds (value : ℕ) : ℕ → Output → Option Output
  | 0, o => some o
  | n + 1, o => (o.put (0x80 + ((value >>> (6 * n)) &&& 0x3F))).bind (putAdds value n)

/-- A value of more than seven bits. -/
def putValue (value : ℕ) (o : Output) : Option Output :=
  let numAdds := numAdds value
  (o.put (kUtf8Limits.getD (numAdds - 1) 0 + value >>> (6 * numAdds))).bind
    (putAdds value numAdds)

def utf16ConvUtf8 : List UInt16 → Output → Option (Bool × Output)
  | [], o => some (true, o)
  | unit :: rest, o =>
    let value := unit.toNat
    if value < 0x80 then (o.put value).bind (utf16ConvUtf8 rest)
    else if value ≥ 0xD800 ∧ value < 0xE000 then
      if value ≥ 0xDC00 then some (false, o)
      else
        match rest with
        | [] => some (false, o)
        | c2 :: rest =>
          let c2 := c2.toNat
          if c2 < 0xDC00 ∨ c2 ≥ 0xE000 then some (false, o)
          else
            (putValue (((value - 0xD800) <<< 10 ||| (c2 - 0xDC00)) + 0x10000) o).bind
              (utf16ConvUtf8 rest)
    else (putValue value o).bind (utf16ConvUtf8 rest)

/-- What a string of UTF-16 stands for; an unpaired surrogate stands for nothing. -/
def codePoints : List UInt16 → Option (List ℕ)
  | [] => some []
  | unit :: rest =>
    if unit.toNat < 0xD800 ∨ 0xE000 ≤ unit.toNat then
      (codePoints rest).map (unit.toNat :: ·)
    else if unit.toNat < 0xDC00 then
      match rest with
      | [] => none
      | low :: rest =>
        if 0xDC00 ≤ low.toNat ∧ low.toNat < 0xE000 then
          let c := 0x10000 + (unit.toNat - 0xD800) * 0x400 + (low.toNat - 0xDC00)
          (codePoints rest).map (c :: ·)
        else none
    else none

end RetroArch.Encodings
