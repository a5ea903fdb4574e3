/- The nick of a client that joins is made its own. -/

import Mathlib.Data.List.TakeWhile
import RetroArch.Library.While
import RetroArch.LibretroDb.Comparison
import RetroArch.Netplay.State

namespace RetroArch.Netplay.Nicknames

open Library.While LibretroDb.Comparison Delta State

abbrev NETPLAY_NICK_LEN : ℕ := 32

/-- The string at the start of a buffer. -/
def text (bytes : List UInt8) : List UInt8 := bytes.takeWhile (· ≠ 0)

/-- `char nick[NETPLAY_NICK_LEN]` with a terminator in it. -/
structure Nick where
  bytes : List UInt8
  full : bytes.length = NETPLAY_NICK_LEN
  terminated : 0 ∈ bytes

/-- What the loop reads of a `struct netplay_connection`. -/
structure Entry where
  active : Bool
  mode : ConnectionMode
  nick : Nick

/-- `snprintf` of `out` into the `size` bytes at `start`. -/
def snprintf (bytes : List UInt8) (start size : ℕ) (out : List UInt8) : List UInt8 :=
  let kept := out.take (size - 1)
  bytes.take start ++ kept ++ 0 :: bytes.drop (start + kept.length + 1)

/-- The text of `" (%d)"`. -/
def suffix (matchct : ℕ) : List UInt8 :=
  32 :: 40 :: ((Nat.toDigits 10 matchct).map fun c => UInt8.ofNat c.toNat) ++ [41]

def nickmangle (nick : Nick) : ℕ :=
  if (text nick.bytes).length > NETPLAY_NICK_LEN - 5 then NETPLAY_NICK_LEN - 5
  else (text nick.bytes).length

/-- A connected client other than the one at `connection`. -/
def isOther (connection : ℕ) (sc : Entry × ℕ) : Bool :=
  sc.2 ≠ connection && sc.1.active && sc.1.mode.ready

def nickMatched (server : Nick) (connections : List Entry) (connection : ℕ) (nick : Nick) : Bool :=
  (connections.zipIdx.any fun sc =>
    isOther connection sc && strncmp NETPLAY_NICK_LEN nick.bytes sc.1.nick.bytes = 0) ||
  strncmp NETPLAY_NICK_LEN nick.bytes server.bytes = 0

theorem text_of_free {bytes : List UInt8} (h : ∀ b ∈ bytes, b ≠ 0) : text bytes = bytes := by
  rw [text, List.takeWhile_eq_self_iff]
  exact fun b hb => decide_eq_true (h b hb)

theorem text_free (bytes : List UInt8) : ∀ b ∈ text bytes, b ≠ 0 := fun b hb =>
  of_decide_eq_true (p := b ≠ 0) (List.mem_takeWhile_imp (p := fun b => decide (b ≠ 0)) hb)

theorem text_cut (front rest : List UInt8) : text (front ++ 0 :: rest) = text front := by
  induction front with
  | nil => rfl
  | cons b front ih =>
    rw [List.cons_append, text, text, List.takeWhile_cons, List.takeWhile_cons]
    split_ifs
    · exact congrArg (b :: ·) ih
    · rfl

theorem exists_cut {bytes : List UInt8} (h : 0 ∈ bytes) :
    ∃ rest, bytes = text bytes ++ 0 :: rest := by
  induction bytes with
  | nil => exact absurd h List.not_mem_nil
  | cons b bytes ih =>
    rw [text, List.takeWhile_cons]
    split_ifs with hb
    · have hrest : 0 ∈ bytes := (List.mem_cons.mp h).resolve_left (of_decide_eq_true hb).symm
      obtain ⟨rest, hcut⟩ := ih hrest
      exact ⟨rest, congrArg (b :: ·) hcut⟩
    · have hzero : b = 0 := by simpa using hb
      exact ⟨bytes, by rw [hzero, List.nil_append]⟩

theorem strncmp_nick (s t : Nick) :
    strncmp NETPLAY_NICK_LEN s.bytes t.bytes = 0 ↔ text s.bytes = text t.bytes := by
  rw [strncmp_eq_zero s.full t.full]
  constructor
  · rintro (heq | ⟨front, u, v, hs, ht⟩)
    · rw [heq]
    · rw [hs, ht, text_cut, text_cut]
  · intro heq
    obtain ⟨u, hu⟩ := exists_cut s.terminated
    obtain ⟨v, hv⟩ := exists_cut t.terminated
    exact .inr ⟨text s.bytes, u, v, hu, by rw [heq]; exact hv⟩

theorem length_snprintf {bytes out : List UInt8} {start size : ℕ} (hpos : 0 < size)
    (h : start + size ≤ bytes.length) :
    (snprintf bytes start size out).length = bytes.length := by
  have hkept : (out.take (size - 1)).length ≤ size - 1 := List.length_take_le _ _
  have hfront : (bytes.take start).length = start := List.length_take_of_le (by omega)
  rw [snprintf, List.length_append, List.length_append, hfront, List.length_cons,
    List.length_drop]
  omega

theorem nickmangle_le (nick : Nick) :
    nickmangle nick ≤ NETPLAY_NICK_LEN - 5 ∧ nickmangle nick ≤ (text nick.bytes).length := by
  rw [nickmangle]
  split_ifs with h
  · exact ⟨le_rfl, h.le⟩
  · exact ⟨Nat.le_of_not_lt h, le_rfl⟩

theorem nickmangle_room (nick : Nick) : nickmangle nick + 5 ≤ NETPLAY_NICK_LEN :=
  Nat.add_le_of_le_sub (by decide) (nickmangle_le nick).1

/-- The nick and the number of names tried. -/
structure Loop where
  nick : Nick
  matchct : ℕ

theorem length_renamed (first nick : Nick) (out : List UInt8) :
    ((snprintf nick.bytes (nickmangle first) (NETPLAY_NICK_LEN - nickmangle first) out).set
      (NETPLAY_NICK_LEN - 1) 0).length = NETPLAY_NICK_LEN := by
  have hroom : nickmangle first + 5 ≤ NETPLAY_NICK_LEN := nickmangle_room first
  rw [List.length_set, length_snprintf (by omega) (by rw [nick.full]; omega), nick.full]

/-- A nick that somebody has gives way to a new one. -/
def rename (first : Nick) (s : Loop) : Loop where
  nick :=
    { bytes := (snprintf s.nick.bytes (nickmangle first) (NETPLAY_NICK_LEN - nickmangle first)
        (suffix (s.matchct + 1))).set (NETPLAY_NICK_LEN - 1) 0
      full := length_renamed first s.nick _
      terminated := List.mem_set
        ((List.length_set ▸ length_renamed first s.nick _).symm ▸ by decide) _ }
  matchct := s.matchct + 1

/-- What every renaming keeps of the nick. -/
def base (first : Nick) : List UInt8 := (text first.bytes).take (nickmangle first)

/-- The name tried when `matchct` names were. -/
def candidate (first : Nick) (matchct : ℕ) : List UInt8 :=
  base first ++ (suffix matchct).take (NETPLAY_NICK_LEN - nickmangle first - 1)

theorem length_base (first : Nick) : (base first).length = nickmangle first :=
  List.length_take_of_le (nickmangle_le first).2

theorem suffix_free (matchct : ℕ) : ∀ b ∈ suffix matchct, b ≠ 0 := by
  intro b hb
  rw [suffix, List.cons_append, List.cons_append, List.mem_cons, List.mem_cons,
    List.mem_append, List.mem_map, List.mem_singleton] at hb
  rcases hb with rfl | rfl | ⟨c, hc, rfl⟩ | rfl
  · decide
  · decide
  · have hdigit := Nat.isDigit_of_mem_toDigits (by decide) (by decide) hc
    rw [Char.isDigit, Bool.and_eq_true, decide_eq_true_eq, decide_eq_true_eq] at hdigit
    intro hzero
    have hlow := UInt32.le_iff_toNat_le.mp hdigit.1
    have hhigh := UInt32.le_iff_toNat_le.mp hdigit.2
    have hval : c.toNat = c.val.toNat := rfl
    have hchar : c.toNat % 256 = 0 := congrArg UInt8.toNat hzero
    have hbounds : ('0' : Char).val.toNat = 48 ∧ ('9' : Char).val.toNat = 57 := ⟨rfl, rfl⟩
    omega
  · decide

theorem candidate_free (first : Nick) (matchct : ℕ) : ∀ b ∈ candidate first matchct, b ≠ 0 := by
  intro b hb
  rcases List.mem_append.mp hb with hb | hb
  · exact text_free _ b (List.mem_of_mem_take hb)
  · exact suffix_free _ b (List.mem_of_mem_take hb)

theorem renamed_bytes {first : Nick} {s : Loop}
    (hbase : s.nick.bytes.take (nickmangle first) = base first) :
    ∃ rest, (rename first s).nick.bytes = candidate first (s.matchct + 1) ++ 0 :: rest := by
  have hlast : (candidate first (s.matchct + 1)).length ≤ NETPLAY_NICK_LEN - 1 := by
    have hroom := nickmangle_room first
    rw [candidate, List.length_append, length_base, List.length_take]
    omega
  simp only [rename, snprintf, hbase]
  rw [← candidate, List.set_append_right _ _ hlast]
  cases NETPLAY_NICK_LEN - 1 - (candidate first (s.matchct + 1)).length with
  | zero => exact ⟨_, by rw [List.set_cons_zero]⟩
  | succ k => exact ⟨_, by rw [List.set_cons_succ]⟩

theorem text_renamed {first : Nick} {s : Loop}
    (hbase : s.nick.bytes.take (nickmangle first) = base first) :
    text (rename first s).nick.bytes = candidate first (s.matchct + 1) := by
  obtain ⟨rest, hbytes⟩ := renamed_bytes hbase
  rw [hbytes, text_cut, text_of_free (candidate_free first _)]

theorem take_renamed {first : Nick} {s : Loop}
    (hbase : s.nick.bytes.take (nickmangle first) = base first) :
    (rename first s).nick.bytes.take (nickmangle first) = base first := by
  obtain ⟨rest, hbytes⟩ := renamed_bytes hbase
  rw [hbytes, candidate, List.append_assoc, ← length_base, List.take_left]

theorem take_nick (first : Nick) : first.bytes.take (nickmangle first) = base first := by
  obtain ⟨rest, hcut⟩ := exists_cut first.terminated
  calc first.bytes.take (nickmangle first)
      = (text first.bytes ++ 0 :: rest).take (nickmangle first) := by rw [← hcut]
    _ = base first := List.take_append_of_le_length (nickmangle_le first).2

theorem renamings (first : Nick) (n : ℕ) :
    ((rename first)^[n] ⟨first, 1⟩).matchct = n + 1 ∧
      ((rename first)^[n] ⟨first, 1⟩).nick.bytes.take (nickmangle first) = base first := by
  induction n with
  | zero => exact ⟨rfl, take_nick first⟩
  | succ n ih =>
    rw [Function.iterate_succ_apply']
    exact ⟨congrArg (· + 1) ih.1, take_renamed ih.2⟩

theorem text_renamings (first : Nick) (n : ℕ) :
    text ((rename first)^[n + 1] ⟨first, 1⟩).nick.bytes = candidate first (n + 2) := by
  rw [Function.iterate_succ_apply', text_renamed (renamings first n).2, (renamings first n).1]

section Uniqueness

theorem candidates_nodup (first : Nick) :
    ((List.range (MAX_CLIENTS + 1)).map fun n => candidate first (n + 2)).Nodup := by
  have hsuffixes : ((List.range (MAX_CLIENTS + 1)).map fun n => (suffix (n + 2)).take 4).Nodup := by
    decide
  have hroom : 4 ≤ NETPLAY_NICK_LEN - nickmangle first - 1 := by
    have hroom := nickmangle_room first
    omega
  refine List.Nodup.of_map (fun name => (name.drop (nickmangle first)).take 4) ?_
  rw [List.map_map]
  convert hsuffixes using 2
  funext n
  rw [Function.comp_apply, candidate, ← length_base, List.drop_left, List.take_take,
    length_base, Nat.min_eq_left hroom]

/-- The names that others have. -/
def taken (server : Nick) (connections : List Entry) (connection : ℕ) : List (List UInt8) :=
  text server.bytes ::
    (connections.zipIdx.filter (isOther connection)).map fun sc => text sc.1.nick.bytes

theorem nickMatched_iff (server : Nick) (connections : List Entry) (connection : ℕ)
    (nick : Nick) : nickMatched server connections connection nick = true ↔
      text nick.bytes ∈ taken server connections connection := by
  rw [nickMatched, taken, Bool.or_eq_true, decide_eq_true_eq, strncmp_nick, List.any_eq_true,
    List.mem_cons, List.mem_map, or_comm]
  refine or_congr_right ⟨?_, ?_⟩
  · rintro ⟨sc, hsc, hboth⟩
    rw [Bool.and_eq_true, decide_eq_true_eq, strncmp_nick] at hboth
    exact ⟨sc, List.mem_filter.mpr ⟨hsc, hboth.1⟩, hboth.2.symm⟩
  · rintro ⟨sc, hsc, hname⟩
    rw [List.mem_filter] at hsc
    refine ⟨sc, hsc.1, ?_⟩
    rw [Bool.and_eq_true, decide_eq_true_eq, strncmp_nick]
    exact ⟨hsc.2, hname.symm⟩

variable {server : Nick} {connections : List Entry} {connection : ℕ}

theorem length_taken :
    (taken server connections connection).length =
      connections.zipIdx.countP (isOther connection) + 1 := by
  rw [taken, List.length_cons, List.length_map, List.countP_eq_length_filter]

theorem exists_free (nick : Nick)
    (hfew : connections.zipIdx.countP (isOther connection) < MAX_CLIENTS) :
    ∃ n, candidate nick (n + 2) ∉ taken server connections connection := by
  by_contra hall
  push Not at hall
  have hsub : ((List.range (MAX_CLIENTS + 1)).map fun n => candidate nick (n + 2)) ⊆
      taken server connections connection := by
    intro name hname
    obtain ⟨n, -, rfl⟩ := List.mem_map.mp hname
    exact hall n
  have hle := (candidates_nodup nick).length_le_of_subset hsub
  rw [length_taken, List.length_map, List.length_range] at hle
  omega

/-- The renaming ends, with a nick that neither the server nor another connected client has. -/
theorem nick_unique (server : Nick) (connections : List Entry) (connection : ℕ) (nick : Nick)
    (hfew : connections.zipIdx.countP (isOther connection) < MAX_CLIENTS) :
    ∃ s, Ends (fun s => nickMatched server connections connection s.nick = true) (rename nick)
        ⟨nick, 1⟩ s ∧
      text s.nick.bytes ≠ text server.bytes ∧
      ∀ i sc, connections[i]? = some sc → i ≠ connection → sc.active = true →
        sc.mode.ready = true → text s.nick.bytes ≠ text sc.nick.bytes := by
  obtain ⟨n, hfree⟩ := @exists_free server connections connection nick hfew
  have hstop : ¬nickMatched server connections connection
      ((rename nick)^[n + 1] ⟨nick, 1⟩).nick = true := by
    rw [nickMatched_iff, text_renamings]
    exact hfree
  obtain ⟨s, hends⟩ := @ends_of_iterate Loop
    (fun s => nickMatched server connections connection s.nick = true) _ _ _ hstop
  have hfree := hends.stopped
  rw [nickMatched_iff, taken, List.mem_cons, not_or] at hfree
  refine ⟨s, hends, hfree.1, fun i sc hsc hi hactive hready heq => hfree.2 ?_⟩
  have hother : isOther connection (sc, i) = true := by
    simp only [isOther, hactive, hready, Bool.and_true, decide_eq_true_eq]
    exact hi
  exact List.mem_map.mpr
    ⟨(sc, i), List.mem_filter.mpr ⟨List.mk_mem_zipIdx_iff_getElem?.mpr hsc, hother⟩, heq.symm⟩

/-- A buffer with this text. -/
def nickOf (name : List UInt8) (h : name.length < NETPLAY_NICK_LEN) : Nick where
  bytes := name ++ List.replicate (NETPLAY_NICK_LEN - name.length) 0
  full := by rw [List.length_append, List.length_replicate, Nat.add_sub_cancel' h.le]
  terminated := List.mem_append_right _ (List.mem_replicate.mpr ⟨Nat.sub_ne_zero_of_lt h, rfl⟩)

/-- A client joins as `a (2)`, as the server and a player are called. -/
theorem nick_unique_two :
    let nick := nickOf [97, 32, 40, 50, 41] (by decide)
    ∃ s, Ends (fun s => nickMatched nick [⟨true, .playing, nick⟩, ⟨true, .preInfo, nick⟩] 1
          s.nick = true) (rename nick) ⟨nick, 1⟩ s ∧
      text s.nick.bytes ≠ text nick.bytes ∧
      ∀ i sc, ([⟨true, .playing, nick⟩, ⟨true, .preInfo, nick⟩] : List Entry)[i]? = some sc →
        i ≠ 1 → sc.active = true → sc.mode.ready = true →
        text s.nick.bytes ≠ text sc.nick.bytes :=
  nick_unique _ _ 1 _ (by decide)

end Uniqueness

end RetroArch.Netplay.Nicknames
