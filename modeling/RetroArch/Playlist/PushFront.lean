/- Which pushes move to the front: those that meet no entry without a list of ROMs, and are not
   taken for another entry. What a history shows after any number of them. -/

import RetroArch.Library.LossyStack
import RetroArch.Playlist.Push

namespace RetroArch.Playlist.Push

open File.Config (pathMaxLength)
open File.Pathname

variable {resolver : Resolver} {entry other e : Record} {p : ContentPlaylist}
  {list front rest : List Record}

theorem findSeen_skip (h : stopsAt resolver entry other = false) (list : List Record) :
    findSeen resolver (resolver.realOf entry.path) (resolver.realCoreOf entry.corePath) entry
        (other :: list) =
      (findSeen resolver (resolver.realOf entry.path) (resolver.realCoreOf entry.corePath) entry
        list).map (Option.map (· + 1)) := by
  rw [findSeen]
  split_ifs with hagrees
  · rw [stopsAt, hagrees, Bool.true_and, decide_eq_false_iff_not] at h
    push Not at h
    rw [h]
    rfl
  · rfl

theorem findSeen_of_stop (h : list.find? (stopsAt resolver entry) = some e) :
    ∃ front rest, list = front ++ e :: rest ∧
      findSeen resolver (resolver.realOf entry.path) (resolver.realCoreOf entry.corePath) entry
        list = if romsEqual resolver entry e = none then none else some (some front.length) := by
  induction list with
  | nil => exact nomatch h
  | cons x list ih =>
    cases hx : stopsAt resolver entry x with
    | true =>
      rw [List.find?_cons_of_pos hx] at h
      obtain rfl := Option.some.inj h
      rw [stopsAt, Bool.and_eq_true, decide_eq_true_eq] at hx
      refine ⟨[], list, rfl, ?_⟩
      rw [findSeen, if_pos hx.1]
      cases hroms : romsEqual resolver entry x with
      | none => rfl
      | some equal =>
        cases equal with
        | true => rfl
        | false => exact absurd hroms hx.2
    | false =>
      rw [List.find?_cons_of_neg (by simp [hx])] at h
      obtain ⟨front, rest, hlist, hseen⟩ := ih h
      refine ⟨x :: front, rest, by rw [hlist, List.cons_append], ?_⟩
      rw [findSeen_skip hx, hseen]
      split_ifs <;> rfl

theorem findSeen_of_none (h : list.find? (stopsAt resolver entry) = none) :
    findSeen resolver (resolver.realOf entry.path) (resolver.realCoreOf entry.corePath) entry
      list = some none := by
  induction list with
  | nil => rfl
  | cons x list ih =>
    have hall := List.find?_eq_none.mp h
    have hx : stopsAt resolver entry x = false := by simpa using hall x List.mem_cons_self
    have hrest := List.find?_eq_none.mpr fun y hy => hall y (List.mem_cons_of_mem x hy)
    rw [findSeen_skip hx, ih hrest]
    rfl

section Moving

variable {slots : List Record}

theorem moveUp_middle (front : List Record) (e : Record) (rest : List Record) (new : Record) :
    (moveUp (front ++ e :: rest) front.length).map (List.set · 0 new) =
      some (new :: (front ++ rest)) := by
  have htop : (front ++ e :: rest).take 1 ++ (front ++ rest) ≠ [] := by
    cases front with
    | nil => simp
    | cons x front => simp
  have hdrop : (front ++ e :: rest).drop (front.length + 1) = rest := by
    rw [List.drop_append, List.drop_of_length_le (by omega), List.nil_append]
    simp
  rw [moveUp, if_pos (by simp), Option.map_some, List.take_left, hdrop]
  cases front with
  | nil => rfl
  | cons x front => rfl

theorem fillBlanks_of_not_updated (h : entryUpdated entry other = false) :
    fillBlanks entry other = other := by
  rw [entryUpdated, Bool.or_eq_false_iff, Bool.or_eq_false_iff] at h
  obtain ⟨⟨hlabel, hcrc32⟩, hdbName⟩ := h
  simp [fillBlanks, fillBlank, hlabel, hcrc32, hdbName]

theorem insertEntry_eq (p : ContentPlaylist) (new : Record) :
    ∃ slots size, insertEntry p.slots p.size new = some (slots, size) ∧
      slots.length = p.slots.length ∧ size ≤ slots.length ∧
      slots.take size =
        new :: if p.size = p.slots.length then p.entries.dropLast else p.entries := by
  have hbounded := p.bounded
  obtain ⟨init, last, hslots⟩ :=
    (List.eq_nil_or_concat' p.slots).resolve_left (List.ne_nil_of_length_pos p.room)
  have hlength : p.slots.length = init.length + 1 := by rw [hslots, List.length_append]; rfl
  -- the last slot is overwritten, whether it was in use or not
  have hmove : ∀ last' : Record, (moveUp (init ++ [last']) init.length).map (List.set · 0 new) =
      some (new :: init) := by
    intro last'
    rw [moveUp_middle, List.append_nil]
  have hcleared : (init ++ [last]).set init.length blank = init ++ [blank] := by simp
  refine ⟨new :: init, if p.size = p.slots.length then p.size else p.size + 1, ?_, ?_, ?_, ?_⟩
  · rw [insertEntry]
    split_ifs with hfull
    · obtain ⟨moved, hmoved, hset⟩ := Option.map_eq_some_iff.mp (hmove blank)
      rw [hslots, List.length_append, List.length_singleton, Nat.add_sub_cancel, hcleared,
        List.length_append, List.length_singleton, Nat.add_sub_cancel, hmoved, Option.map_some,
        hset]
      congr 2
      omega
    · obtain ⟨moved, hmoved, hset⟩ := Option.map_eq_some_iff.mp (hmove last)
      rw [hslots, List.length_append, List.length_singleton, Nat.add_sub_cancel, hmoved,
        Option.map_some, hset]
  · rw [hlength, List.length_cons]
  · rw [List.length_cons]
    split_ifs <;> omega
  · rw [ContentPlaylist.entries]
    split_ifs with hfull
    · rw [hfull, List.take_length, hlength, List.take_succ_cons, List.take_length, hslots,
        List.dropLast_concat]
    · rw [List.take_succ_cons, hslots, List.take_append_of_le_length (by omega)]

end Moving

theorem getD_copied (text : Option Text) : (copied text).getD [] = text.getD [] := by
  rw [copied]
  split_ifs with hempty
  · exact ((isEmpty_iff text).mp hempty).symm
  · rfl

theorem strlcpy_resolved (resolver : Resolver) (path : Text) :
    strlcpy (resolver.resolve path) pathMaxLength = resolver.resolve path :=
  List.take_of_length_le (Nat.le_sub_one_of_lt (resolver.fits path))

theorem realOf_copied (resolver : Resolver) (path : Option Text) :
    resolver.realOf (copied (some (resolver.realOf path))) = resolver.realOf path := by
  rw [copied]
  split_ifs with hempty
  · exact ((isEmpty_iff _).mp hempty).symm
  · have hpath : ¬ isEmpty path := fun h => hempty (by
      rw [(resolver.realOf_eq_nil path).mpr h]
      rfl)
    rw [Resolver.realOf, if_neg hempty, Option.getD_some, Resolver.realPath, Resolver.realOf,
      if_neg hpath, Resolver.realPath, strlcpy_resolved, resolver.idempotent]

theorem realCorePath_again (resolver : Resolver) (corePath : Text) :
    resolver.realCorePath (resolver.realCorePath corePath) = resolver.realCorePath corePath := by
  by_cases hdetect : strlcpy corePath pathMaxLength = detect
  · have hreal : resolver.realCorePath corePath = detect := by
      rw [Resolver.realCorePath, if_pos hdetect, hdetect]
    rw [hreal]
    rfl
  · have hreal : resolver.realCorePath corePath =
        resolver.resolve (strlcpy corePath pathMaxLength) := if_neg hdetect
    rw [hreal, Resolver.realCorePath, strlcpy_resolved]
    split_ifs
    · rfl
    · exact resolver.idempotent _

theorem realCoreOf_copied (hcore : resolver.realCoreOf other.corePath ≠ []) :
    resolver.realCoreOf (copied (some (resolver.realCoreOf other.corePath))) =
      resolver.realCoreOf other.corePath := by
  have hfull : ¬ isEmpty (some (resolver.realCoreOf other.corePath)) := by
    rw [isEmpty_iff]
    exact hcore
  have hpath : ¬ isEmpty other.corePath := fun h => hcore (by rw [Resolver.realCoreOf, if_pos h])
  have hreal : resolver.realCoreOf other.corePath =
      resolver.realCorePath (other.corePath.getD []) := if_neg hpath
  rw [copied, if_neg hfull]
  rw [hreal] at hfull ⊢
  rw [Resolver.realCoreOf, if_neg hfull, Option.getD_some, realCorePath_again]

theorem key_pushed (hcore : resolver.realCoreOf entry.corePath ≠ []) :
    keyOf resolver (pushed resolver entry) = keyOf resolver entry := by
  have hident := getD_copied entry.subsystemIdent
  have hname := getD_copied entry.subsystemName
  rw [keyOf, keyOf, pushed, newEntry]
  dsimp only
  rw [realOf_copied, realCoreOf_copied hcore, hident, hname]

theorem key_fillBlanks (entry e : Record) :
    keyOf resolver (fillBlanks entry e) = keyOf resolver e := rfl

theorem realCore_ne_nil (h : ¬ isEmpty entry.corePath) :
    resolver.realCoreOf entry.corePath ≠ [] := by
  rw [Resolver.realCoreOf, if_neg h]
  have hne : entry.corePath.getD [] ≠ [] := fun hnil => h ((isEmpty_iff _).mpr hnil)
  rw [Resolver.realCorePath]
  split_ifs with hdetect
  · rw [hdetect]
    exact List.cons_ne_nil _ _
  · exact resolver.realPath_ne_nil hne

theorem push_rejected (h : Rejected resolver entry) :
    playlistPush resolver p.slots p.size entry = some (false, p.slots, p.size) := by
  rw [playlistPush]
  split_ifs with hempty
  · rfl
  · have hreal : resolver.realCorePath (entry.corePath.getD []) =
        resolver.realCoreOf entry.corePath := by rw [Resolver.realCoreOf, if_neg hempty]
    rw [hreal, if_neg (realCore_ne_nil hempty)]
    rw [if_pos (h.resolve_left hempty)]

theorem push_searches (h : ¬ Rejected resolver entry) :
    playlistPush resolver p.slots p.size entry =
      (findSeen resolver (resolver.realOf entry.path) (resolver.realCoreOf entry.corePath) entry
        p.entries).bind fun seen =>
          match seen with
          | some i =>
            p.slots[i]?.bind fun other =>
              let filled := fillBlanks entry other
              let slots := p.slots.set i filled
              if i = 0 then some (entryUpdated entry other, slots, p.size)
              else (moveUp slots i).map fun slots => (true, slots.set 0 filled, p.size)
          | none =>
            (insertEntry p.slots p.size (pushed resolver entry)).map
              fun (slots, size) => (true, slots, size) := by
  rw [Rejected, not_or] at h
  have hreal : resolver.realCorePath (entry.corePath.getD []) =
      resolver.realCoreOf entry.corePath := by rw [Resolver.realCoreOf, if_neg h.1]
  rw [playlistPush, if_neg h.1]
  dsimp only
  rw [hreal, if_neg (realCore_ne_nil h.1), if_neg h.2]
  rfl

/-- An entry that is seen again is put to the top with its blanks filled. -/
theorem push_seen (h : ¬ Rejected resolver entry)
    (hstop : p.entries.find? (stopsAt resolver entry) = some e)
    (hroms : romsEqual resolver entry e ≠ none) :
    ∃ front rest returned slots, p.entries = front ++ e :: rest ∧
      playlistPush resolver p.slots p.size entry = some (returned, slots, p.size) ∧
      slots.length = p.slots.length ∧
      slots.take p.size = fillBlanks entry e :: (front ++ rest) ∧
      (returned = false → slots.take p.size = p.entries) := by
  obtain ⟨front, rest, hentries, hseen⟩ := findSeen_of_stop hstop
  rw [if_neg hroms] at hseen
  have hslots : p.slots = front ++ e :: (rest ++ p.slots.drop p.size) := by
    have happend := List.take_append_drop p.size p.slots
    rw [← ContentPlaylist.entries, hentries, List.append_assoc, List.cons_append] at happend
    exact happend.symm
  have hsize : p.size = front.length + (rest.length + 1) := by
    have hlength := congrArg List.length hentries
    rw [ContentPlaylist.entries, List.length_take, List.length_append, List.length_cons] at hlength
    have hbounded := p.bounded
    omega
  have hget : p.slots[front.length]? = some e := by
    rw [hslots]
    simp
  have htake : ∀ (x : Record), (x :: (front ++ (rest ++ p.slots.drop p.size))).take p.size =
      x :: (front ++ rest) := by
    intro x
    have hcount : (x :: (front ++ rest)).length = p.size := by
      rw [List.length_cons, List.length_append]
      omega
    have happend : x :: (front ++ (rest ++ p.slots.drop p.size)) =
        x :: (front ++ rest) ++ p.slots.drop p.size := by simp
    rw [happend]
    exact List.take_left' hcount
  have hset : p.slots.set front.length (fillBlanks entry e) =
      front ++ fillBlanks entry e :: (rest ++ p.slots.drop p.size) := by
    nth_rewrite 1 [hslots]
    simp
  rw [push_searches h, hseen, Option.bind_some]
  dsimp only
  rw [hget, Option.bind_some, hset]
  by_cases hfirst : front.length = 0
  · obtain rfl := List.length_eq_zero_iff.mp hfirst
    refine ⟨[], rest, _, _, hentries, if_pos rfl, ?_, htake _, ?_⟩
    · rw [← hset, List.length_set]
    · intro hunchanged
      rw [fillBlanks_of_not_updated hunchanged]
      rw [hentries]
      exact htake e
  · obtain ⟨moved, hmoved, htop⟩ := Option.map_eq_some_iff.mp
      (moveUp_middle front (fillBlanks entry e) (rest ++ p.slots.drop p.size) (fillBlanks entry e))
    refine ⟨front, rest, true, fillBlanks entry e :: (front ++ (rest ++ p.slots.drop p.size)),
      hentries, ?_, ?_, ?_, fun hfalse => Bool.noConfusion hfalse⟩
    · rw [if_neg hfirst, hmoved, Option.map_some, htop]
    · have hlength := congrArg List.length hset
      rw [List.length_set, List.length_append, List.length_cons] at hlength
      rw [List.length_cons, List.length_append]
      omega
    · exact htake _

theorem push_inserts (h : ¬ Rejected resolver entry)
    (hstop : p.entries.find? (stopsAt resolver entry) = none) :
    ∃ slots size, playlistPush resolver p.slots p.size entry = some (true, slots, size) ∧
      slots.length = p.slots.length ∧ size ≤ slots.length ∧
      Inserted resolver p entry (slots.take size) := by
  obtain ⟨slots, size, hinsert, hlength, hsize, htake⟩ :=
    insertEntry_eq p (pushed resolver entry)
  refine ⟨slots, size, ?_, hlength, hsize, htake⟩
  rw [push_searches h, findSeen_of_none hstop, Option.bind_some]
  dsimp only
  rw [hinsert, Option.map_some]

theorem noTwins_bumped {before after : List Record} (h : Bumped resolver entry before after)
    (htwins : NoTwins resolver before) : NoTwins resolver after := by
  obtain ⟨front, e, rest, rfl, -, rfl⟩ := h
  rw [NoTwins, List.map_cons, key_fillBlanks, ← List.map_cons]
  have hperm : ((front ++ e :: rest).map (keyOf resolver)).Perm
      ((e :: (front ++ rest)).map (keyOf resolver)) := List.perm_middle.map _
  exact hperm.nodup_iff.mp htwins

theorem noTwins_inserted {after : List Record}
    (hcore : resolver.realCoreOf entry.corePath ≠ [])
    (hnone : ∀ e ∈ p.entries, keyOf resolver e ≠ keyOf resolver entry)
    (h : Inserted resolver p entry after) (htwins : NoTwins resolver p.entries) :
    NoTwins resolver after := by
  have hsub : (if p.size = p.slots.length then p.entries.dropLast else p.entries).Sublist
      p.entries := by
    split_ifs
    · exact List.dropLast_sublist _
    · exact .refl _
  rw [Inserted] at h
  rw [h, NoTwins, List.map_cons, List.nodup_cons, key_pushed hcore]
  refine ⟨?_, htwins.sublist (hsub.map _)⟩
  intro hmem
  obtain ⟨e, he, hkey⟩ := List.mem_map.mp hmem
  exact hnone e (hsub.subset he) hkey

theorem getLast?_of_dropLast {α : Type} {front rest : List α} {e : α}
    (h : (front ++ e :: rest).dropLast = front ++ rest) :
    (front ++ e :: rest).getLast? = some e := by
  rw [List.dropLast_append_of_ne_nil (List.cons_ne_nil e rest)] at h
  have htail : (e :: rest).dropLast = rest := List.append_cancel_left h
  rw [List.getLast?_append_of_ne_nil _ (List.cons_ne_nil e rest)]
  clear h
  induction rest with
  | nil => rfl
  | cons x rest ih =>
    rw [List.dropLast_cons_cons] at htail
    obtain ⟨rfl, hrest⟩ := List.cons.inj htail
    rw [List.getLast?_cons_cons]
    exact ih hrest

/-- The ROMs of an entry that the loop stops at are the same exactly if both have a list of them, or
neither has any. -/
theorem same_of_stop (hcore : resolver.realCoreOf entry.corePath ≠ [])
    (hstop : stopsAt resolver entry e) :
    romsEqual resolver entry e ≠ none ∧ keyOf resolver e = keyOf resolver entry ↔
      RomsAlike entry e := by
  rw [stopsAt, Bool.and_eq_true, decide_eq_true_eq] at hstop
  rw [same_iff hcore, and_iff_right hstop.1, RomsAlike]
  cases hmine : entry.subsystemRoms with
  | none =>
    have hequal : romsEqual resolver entry e ≠ none := by simp [romsEqual, hmine]
    rw [and_iff_right hequal]
    simp [realRoms]
  | some mine =>
    dsimp only
    constructor
    · rintro ⟨hequal, -⟩ hnone
      apply hequal
      simp [romsEqual, hmine, hnone]
    · intro hroms
      have hequal : romsEqual resolver entry e ≠ none := by
        obtain ⟨roms, hroms⟩ := Option.ne_none_iff_exists'.mp hroms
        simp [romsEqual, hmine, hroms]
      obtain ⟨equal, heq⟩ := Option.ne_none_iff_exists'.mp hequal
      cases equal with
      | false => exact absurd heq hstop.2
      | true => exact ⟨hequal, hmine ▸ realRoms_of_equal hmine heq⟩

/-- The push is right about the entry it stops at exactly if there are ROMs to compare, and they
are the same. -/
theorem movesToFront_stop (hrejected : ¬ Rejected resolver entry)
    (hcore : resolver.realCoreOf entry.corePath ≠ [])
    (hstop : p.entries.find? (stopsAt resolver entry) = some e) :
    MovesToFront resolver p entry ↔
      romsEqual resolver entry e ≠ none ∧ keyOf resolver e = keyOf resolver entry := by
  constructor
  · rintro ⟨returned, slots, size, hpush, -, -, -, hmoves, -⟩
    obtain ⟨hbumped, hinserted⟩ := hmoves hrejected
    have hroms : romsEqual resolver entry e ≠ none := by
      intro hnone
      obtain ⟨front, rest, -, hseen⟩ := findSeen_of_stop hstop
      rw [push_searches hrejected, hseen, if_pos hnone] at hpush
      exact nomatch hpush
    refine ⟨hroms, ?_⟩
    obtain ⟨front, rest, returned', slots', -, hpush', -, htake, -⟩ :=
      push_seen hrejected hstop hroms
    obtain ⟨-, hsame⟩ := Prod.mk.inj (Option.some.inj (hpush.symm.trans hpush'))
    obtain ⟨rfl, rfl⟩ := Prod.mk.inj hsame
    rw [← key_fillBlanks entry e]
    by_cases hexists : ∃ x ∈ p.entries, keyOf resolver x = keyOf resolver entry
    · obtain ⟨front', e', rest', -, hkey, htake'⟩ := hbumped hexists
      rw [(List.cons.inj (htake.symm.trans htake')).1, key_fillBlanks, hkey]
    · have htake' := hinserted hexists
      rw [(List.cons.inj (htake.symm.trans htake')).1, key_pushed hcore]
  · rintro ⟨hroms, hkey⟩
    obtain ⟨front, rest, returned, slots, hentries, hpush, hlength, htake, hunchanged⟩ :=
      push_seen hrejected hstop hroms
    have hbumped : Bumped resolver entry p.entries (slots.take p.size) :=
      ⟨front, e, rest, hentries, hkey, htake⟩
    refine ⟨returned, slots, p.size, hpush, hlength, hlength ▸ p.bounded, hunchanged, fun _ =>
      ⟨fun _ => hbumped, fun hnone => ?_⟩, noTwins_bumped hbumped⟩
    exact absurd ⟨e, by rw [hentries]; simp, hkey⟩ hnone

theorem movesToFront_none (hrejected : ¬ Rejected resolver entry)
    (hcore : resolver.realCoreOf entry.corePath ≠ [])
    (hstop : p.entries.find? (stopsAt resolver entry) = none) :
    MovesToFront resolver p entry ↔
      (∀ e ∈ p.entries, keyOf resolver e ≠ keyOf resolver entry) ∨ Replaced resolver p entry := by
  obtain ⟨slots, size, hpush, hlength, hsize, hinserted⟩ := push_inserts hrejected hstop
  constructor
  · rintro ⟨returned', slots', size', hpush', -, -, -, hmoves, -⟩
    obtain ⟨-, hsame⟩ := Prod.mk.inj (Option.some.inj (hpush.symm.trans hpush'))
    obtain ⟨rfl, rfl⟩ := Prod.mk.inj hsame
    by_cases hexists : ∃ x ∈ p.entries, keyOf resolver x = keyOf resolver entry
    · right
      obtain ⟨front, e, rest, hentries, hkey, htake⟩ := (hmoves hrejected).1 hexists
      obtain ⟨hfill, hrest⟩ := List.cons.inj (htake.symm.trans hinserted)
      split_ifs at hrest with hfull
      · rw [hentries] at hrest
        have hlast := getLast?_of_dropLast hrest.symm
        exact ⟨hfull, e, by rw [hentries, hlast], hkey, hfill⟩
      · have hlengths := congrArg List.length (hrest.trans hentries)
        simp at hlengths
    · left
      intro e he hkey
      exact hexists ⟨e, he, hkey⟩
  · rintro (hnone | ⟨hfull, e, hlast, hkey, hfill⟩)
    · refine ⟨true, slots, size, hpush, hlength, hsize, fun hfalse => Bool.noConfusion hfalse,
        fun _ => ⟨fun ⟨e, he, hkey⟩ => absurd hkey (hnone e he), fun _ => hinserted⟩,
        noTwins_inserted hcore hnone hinserted⟩
    · obtain ⟨init, hinit⟩ := List.getLast?_eq_some_iff.mp hlast
      have hbumped : Bumped resolver entry p.entries (slots.take size) := by
        refine ⟨init, e, [], hinit, hkey, ?_⟩
        rw [Inserted, if_pos hfull, hinit, List.dropLast_concat] at hinserted
        rw [hinserted, hfill, List.append_nil]
      refine ⟨true, slots, size, hpush, hlength, hsize, fun hfalse => Bool.noConfusion hfalse,
        fun _ => ⟨fun _ => hbumped, fun _ => hinserted⟩, noTwins_bumped hbumped⟩

theorem movesToFront_iff (resolver : Resolver) (p : ContentPlaylist) (entry : Record) :
    MovesToFront resolver p entry ↔ Rejected resolver entry ∨ Distinguished resolver p entry := by
  by_cases hrejected : Rejected resolver entry
  · refine iff_of_true ⟨_, _, _, push_rejected hrejected, rfl, p.bounded, fun _ => rfl,
      fun hnot => absurd hrejected hnot, fun htwins => htwins⟩ (.inl hrejected)
  · have hcore : resolver.realCoreOf entry.corePath ≠ [] :=
      realCore_ne_nil fun hempty => hrejected (.inl hempty)
    rw [or_iff_right hrejected, Distinguished]
    cases hstop : p.entries.find? (stopsAt resolver entry) with
    | some e =>
      exact (movesToFront_stop hrejected hcore hstop).trans
        (same_of_stop hcore (List.find?_some hstop))
    | none => exact movesToFront_none hrejected hcore hstop

def plainResolver : Resolver where
  resolve := fun p => p.take 100
  idempotent := fun p => by rw [List.take_take, Nat.min_self]
  nonempty := fun p hp => by
    obtain ⟨c, cs, rfl⟩ := List.exists_cons_of_ne_nil hp
    exact List.cons_ne_nil c _
  fits := fun p => by
    rw [List.length_take]
    exact Nat.lt_of_le_of_lt (Nat.min_le_left _ _) (by decide)

/-- `/a` played by the core `/c` as the subsystem `s`, without a list of ROMs -/
def romless : Record :=
  ⟨some [47, 97], none, some [47, 99], some [99], none, none, some [115], some [115], none, .zero⟩

/-- The same with a list of ROMs finds none to compare its own with. -/
theorem null_roms_read :
    ¬ ∀ (resolver : Resolver) (p : ContentPlaylist) (entry : Record),
      MovesToFront resolver p entry := by
  intro h
  have hfault : playlistPush plainResolver [romless] 1
      { romless with subsystemRoms := some [[47, 114]] } = none := by decide
  obtain ⟨returned, slots, size, hpush, -⟩ := h plainResolver ⟨[romless], 1, by decide, by decide⟩
    { romless with subsystemRoms := some [[47, 114]] }
  rw [hfault] at hpush
  exact nomatch hpush

section History

open Library.LossyStack

/-- Content is given with a list of ROMs exactly where it names a subsystem, and each ROM has a
path. -/
def WellGiven (e : Record) : Prop :=
  (e.subsystemRoms = none ↔ isEmpty e.subsystemIdent) ∧
    ∀ rom ∈ e.subsystemRoms.getD [], rom ≠ []

/-- One push after another, with what they return left out. -/
def pushAll (resolver : Resolver) (start : List Record × ℕ) (pushes : List Record) :
    Option (List Record × ℕ) :=
  pushes.foldlM (fun now e => (playlistPush resolver now.1 now.2 e).map (·.2)) start

/-- The playlist of `n` slots shows what was played. -/
structure Shows (resolver : Resolver) (n : ℕ) (played : List Key) (p : ContentPlaylist) : Prop where
  slots : p.slots.length = n
  given : ∀ e ∈ p.entries, WellGiven e
  keys : p.entries.map (keyOf resolver) = recent n played

theorem isEmpty_copied (text : Option Text) : isEmpty (copied text) = isEmpty text := by
  rw [Bool.eq_iff_iff, isEmpty_iff, isEmpty_iff, getD_copied]

theorem roms_none_iff (hentry : WellGiven entry) (he : WellGiven e)
    (hident : e.subsystemIdent.getD [] = entry.subsystemIdent.getD []) :
    e.subsystemRoms = none ↔ entry.subsystemRoms = none := by
  rw [he.1, hentry.1, isEmpty_iff, isEmpty_iff, hident]

theorem romsEqual_of_realRoms {mine roms : List Text} (hmine : entry.subsystemRoms = some mine)
    (hroms : other.subsystemRoms = some roms) (hpaths : ∀ rom ∈ mine, rom ≠ [])
    (h : realRoms resolver other.subsystemRoms = realRoms resolver entry.subsystemRoms) :
    romsEqual resolver entry other = some true := by
  rw [hroms, hmine, realRoms, realRoms, Option.getD_some, Option.getD_some] at h
  have hlength : mine.length = roms.length := by
    simpa using (congrArg List.length h).symm
  rw [romsEqual, hmine]
  dsimp only
  rw [hroms, Option.map_some, if_neg (not_not.mpr hlength)]
  congr 1
  clear hmine hroms
  induction mine generalizing roms with
  | nil => rfl
  | cons rom mine ih =>
    cases roms with
    | nil => cases h
    | cons otherRom roms =>
      obtain ⟨hrom, hrest⟩ := List.cons.inj h
      rw [List.zip_cons_cons, List.all_cons, Bool.and_eq_true, pathEqual_iff]
      have hfull : resolver.realOf (some rom) ≠ [] := by
        rw [Ne, resolver.realOf_eq_nil, isEmpty_iff]
        exact hpaths rom List.mem_cons_self
      exact ⟨⟨hfull, hrom⟩, ih (fun rom hmem => hpaths rom (List.mem_cons_of_mem _ hmem)) hrest
        (Nat.succ.inj hlength)⟩

/-- Of content that is well given, what is the same is found. -/
theorem stopsAt_of_same (hcore : resolver.realCoreOf entry.corePath ≠ []) (hentry : WellGiven entry)
    (he : WellGiven e) (hkey : keyOf resolver e = keyOf resolver entry) :
    stopsAt resolver entry e := by
  obtain ⟨hagrees, hreal⟩ := (same_iff hcore).mp hkey
  have hnone := roms_none_iff hentry he ((agrees_iff hcore).mp hagrees).2.2.1
  rw [stopsAt, hagrees, Bool.true_and, decide_eq_true_eq]
  cases hmine : entry.subsystemRoms with
  | none => simp [romsEqual, hmine]
  | some mine =>
    obtain ⟨roms, hroms⟩ : ∃ roms, e.subsystemRoms = some roms := by
      rw [← Option.ne_none_iff_exists', Ne, hnone, hmine]
      exact Option.some_ne_none mine
    have hpaths : ∀ rom ∈ mine, rom ≠ [] := by
      have hgiven := hentry.2
      rwa [hmine] at hgiven
    rw [romsEqual_of_realRoms hmine hroms hpaths hreal]
    simp

theorem romsAlike_of_stop (hcore : resolver.realCoreOf entry.corePath ≠ [])
    (hentry : WellGiven entry) (he : WellGiven e) (hstop : stopsAt resolver entry e) :
    RomsAlike entry e := by
  rw [stopsAt, Bool.and_eq_true] at hstop
  have hnone := roms_none_iff hentry he ((agrees_iff hcore).mp hstop.1).2.2.1
  rw [RomsAlike]
  cases hmine : entry.subsystemRoms with
  | none =>
    dsimp only
    rw [hnone.mpr hmine]
    rfl
  | some mine =>
    dsimp only
    rw [Ne, hnone, hmine]
    exact Option.some_ne_none mine

theorem given_pushed (h : WellGiven entry) : WellGiven (pushed resolver entry) := by
  rw [WellGiven, pushed, newEntry]
  dsimp only
  rw [isEmpty_copied]
  exact h

/-- A push of content that is not rejected brings it to the top of what is shown. -/
theorem Shows.push {n : ℕ} {played : List Key} (h : Shows resolver (n + 1) played p)
    (hrejected : ¬ Rejected resolver entry) (hentry : WellGiven entry) :
    ∃ returned, ∃ q : ContentPlaylist,
      playlistPush resolver p.slots p.size entry = some (returned, q.slots, q.size) ∧
        Shows resolver (n + 1) (played ++ [keyOf resolver entry]) q := by
  have hcore : resolver.realCoreOf entry.corePath ≠ [] :=
    realCore_ne_nil fun hempty => hrejected (.inl hempty)
  have hkeys : p.entries.map (keyOf resolver) = played.dedup.reverse.take (n + 1) := h.keys
  cases hstop : p.entries.find? (stopsAt resolver entry) with
  | some e =>
    have he := h.given e (List.mem_of_find?_eq_some hstop)
    obtain ⟨hroms, hkey⟩ := (same_of_stop hcore (List.find?_some hstop)).mpr
      (romsAlike_of_stop hcore hentry he (List.find?_some hstop))
    obtain ⟨front, rest, returned, slots, hentries, hpush, hlength, htake, -⟩ :=
      push_seen hrejected hstop hroms
    refine ⟨returned, ⟨slots, p.size, hlength ▸ p.bounded, hlength ▸ p.room⟩, hpush,
      hlength.trans h.slots, ?_, ?_⟩
    · have hgiven := h.given
      rw [hentries] at hgiven
      rw [ContentPlaylist.entries, htake]
      intro x hx
      rw [List.mem_cons, List.mem_append] at hx
      rcases hx with rfl | hx | hx
      · exact he
      · exact hgiven x (List.mem_append_left _ hx)
      · exact hgiven x (List.mem_append_right _ (List.mem_cons_of_mem _ hx))
    · rw [hentries, List.map_append, List.map_cons, hkey] at hkeys
      rw [ContentPlaylist.entries, htake, List.map_cons, key_fillBlanks, hkey, List.map_append,
        recent_concat, take_filter_of_mem (List.nodup_reverse.mpr (List.nodup_dedup _)) hkeys.symm]
  | none =>
    have hnone : keyOf resolver entry ∉ played.dedup.reverse.take (n + 1) := by
      rw [← hkeys]
      intro hmem
      obtain ⟨e, he, hkey⟩ := List.mem_map.mp hmem
      exact List.find?_eq_none.mp hstop e he (stopsAt_of_same hcore hentry (h.given e he) hkey)
    obtain ⟨slots, size, hpush, hlength, hsize, hinserted⟩ := push_inserts hrejected hstop
    have hkept : (if p.size = p.slots.length then p.entries.dropLast else p.entries).map
        (keyOf resolver) = played.dedup.reverse.take n := by
      have hcount : p.size = (p.entries.map (keyOf resolver)).length := by
        rw [List.length_map, ContentPlaylist.entries, List.length_take, Nat.min_eq_left p.bounded]
      rw [apply_ite (List.map (keyOf resolver)), List.map_dropLast, hcount, h.slots, hkeys,
        List.length_take]
      split_ifs with hfull
      · rw [List.dropLast_eq_take, List.length_take, hfull, List.take_take]
        congr 1
        omega
      · rw [List.take_of_length_le (by omega), List.take_of_length_le (by omega)]
    refine ⟨true, ⟨slots, size, hsize, hlength ▸ p.room⟩, hpush, hlength.trans h.slots, ?_, ?_⟩
    · rw [ContentPlaylist.entries, hinserted]
      intro x hx
      rw [List.mem_cons] at hx
      rcases hx with rfl | hx
      · exact given_pushed hentry
      · split_ifs at hx with hfull
        · exact h.given x (List.mem_of_mem_dropLast hx)
        · exact h.given x hx
    · rw [ContentPlaylist.entries, hinserted, List.map_cons, key_pushed hcore, hkept,
        recent_concat, take_filter_of_not_mem hnone]

theorem Shows.pushAll {n : ℕ} {played : List Key} (h : Shows resolver (n + 1) played p)
    {pushes : List Record} (hgiven : ∀ e ∈ pushes, WellGiven e) :
    ∃ q : ContentPlaylist, pushAll resolver (p.slots, p.size) pushes = some (q.slots, q.size) ∧
      Shows resolver (n + 1) (played ++
        (pushes.filter (¬ Rejected resolver ·)).map (keyOf resolver)) q := by
  induction pushes generalizing p played with
  | nil => exact ⟨p, rfl, by rwa [List.filter_nil, List.map_nil, List.append_nil]⟩
  | cons entry pushes ih =>
    have hrest : ∀ e ∈ pushes, WellGiven e := fun e he => hgiven e (List.mem_cons_of_mem _ he)
    by_cases hrejected : Rejected resolver entry
    · obtain ⟨q, hq, hshows⟩ := ih h hrest
      refine ⟨q, ?_, ?_⟩
      · rw [Push.pushAll, List.foldlM_cons, push_rejected hrejected]
        exact hq
      · rwa [List.filter_cons_of_neg (by simpa using hrejected)]
    · obtain ⟨returned, p', hpush, hshows'⟩ := h.push hrejected (hgiven entry List.mem_cons_self)
      obtain ⟨q, hq, hshows⟩ := ih hshows' hrest
      refine ⟨q, ?_, ?_⟩
      · rw [Push.pushAll, List.foldlM_cons, hpush]
        exact hq
      · rw [List.filter_cons_of_pos (by simpa using hrejected), List.map_cons]
        rwa [List.append_assoc] at hshows

end History

end RetroArch.Playlist.Push
