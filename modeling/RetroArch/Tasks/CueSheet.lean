/- Cue sheets as texts: the commands that the words of a sheet spell are those that the search
   reads. -/

import RetroArch.Tasks.CueSearch

namespace RetroArch.Tasks.Cue

open File.Config (pathMaxLength)
open Library.Memory

/-- The words of a sheet with the commands that they are; between the commands there may be words
that are none. -/
inductive Spells : List Str → List Event → Prop
  | done : Spells [] []
  | file {words : List Str} {read : List Event} (name kind : Str) :
      Spells words read →
      Spells (fileWord :: name :: kind :: words) (.newFile :: .file name :: read)
  | track {words : List Str} {read : List Event} (number mode : Str) :
      Spells words read →
      Spells (trackWord :: number :: mode :: words) (.track (mode ≠ audioWord) :: read)
  | index {words : List Str} {read : List Event} (number stamp : Str) :
      Spells words read →
      Spells (indexWord :: number :: stamp :: words) (.index (scanStamp stamp) :: read)
  | other {words : List Str} {read : List Event} {word : Str} :
      word ≠ fileWord → word ≠ trackWord → word ≠ indexWord →
      Spells words read → Spells (word :: words) (.other :: read)

section Words

variable {content word : Str} {token : List UInt8} {words : List Str} {reader : Reader}

theorem tokenString_stored (hword : 0 ∉ word) (h : token.take (word.length + 1) = word ++ [0]) :
    tokenString token = some word := by
  have htoken : token = word ++ 0 :: token.drop (word.length + 1) := by
    rw [← List.take_append_drop (word.length + 1) token, h, List.append_assoc]
    simp
  have hall : ∀ b ∈ word, decide (b ≠ 0) = true := fun b hb =>
    decide_eq_true (ne_of_mem_of_not_mem hb hword)
  rw [tokenString, if_pos (by rw [htoken]; simp), htoken, List.takeWhile_append_of_pos hall,
    List.takeWhile_cons_of_neg (by simp), List.append_nil]

theorem call_delivered (hword : 0 ∉ word)
    (h : Delivers maxTokenLen reader.1 reader.2 (word :: words)) :
    ∃ read, getToken reader.1 reader.2 maxTokenLen = some read ∧ read.len ≠ 0 ∧
      tokenString read.token = some word ∧ Delivers maxTokenLen read.rest read.token words := by
  obtain ⟨rest, token', hcall, hne, htake, hnext⟩ := delivers_next h
  refine ⟨_, hcall, ?_, tokenString_stored hword htake, hnext⟩
  exact Nat.ne_of_gt (List.length_pos_iff.mpr hne)

theorem next_delivered (hword : 0 ∉ word)
    (h : Delivers maxTokenLen reader.1 reader.2 (word :: words)) :
    ∃ reader' : Reader, skipToken reader = some reader' ∧
      nextString reader = some (word, reader') ∧
      Delivers maxTokenLen reader'.1 reader'.2 words := by
  obtain ⟨read, hcall, -, hstring, hnext⟩ := call_delivered hword h
  have hskip : skipToken reader = some (read.rest, read.token) := by
    rw [skipToken, hcall, Option.map_some]
  refine ⟨(read.rest, read.token), hskip, ?_, hnext⟩
  rw [nextString, hskip, Option.bind_some, hstring, Option.map_some]

theorem events_next {before : List Event} {later : Reader}
    (h : readCommand reader = ⟨before, some (some later)⟩) :
    events reader = (before ++ (events later).1, (events later).2) := by
  have hnext : (readCommand reader).next = some (some later) := by rw [h]
  rw [events]
  split
  · next hnone =>
      rw [hnext] at hnone
      cases hnone
  · next hend =>
      rw [hnext] at hend
      cases hend
  · next later' hlater =>
      rw [hnext] at hlater
      rw [h, ← Option.some.inj (Option.some.inj hlater)]

theorem events_end (h : readCommand reader = ⟨[], some none⟩) : events reader = ([], true) := by
  have hnext : (readCommand reader).next = some none := by rw [h]
  rw [events]
  split
  · next hnone =>
      rw [hnext] at hnone
      cases hnone
  · rw [h]
  · next later hlater =>
      rw [hnext] at hlater
      cases hlater

theorem events_spelled {read : List Event} (hspells : Spells words read)
    (hwords : ∀ word ∈ words, 0 ∉ word) (h : Delivers maxTokenLen reader.1 reader.2 words) :
    events reader = (read, true) := by
  induction hspells generalizing reader with
  | done =>
    cases h with
    | none hcall =>
      apply events_end
      rw [readCommand, hcall]
      rfl
  | @file words read name kind hspells ih =>
    obtain ⟨first, hcall, hlen, hstring, hnext⟩ := call_delivered (hwords _ (by simp)) h
    obtain ⟨second, -, hname, hnext⟩ := @next_delivered name (kind :: words)
      (first.rest, first.token) (hwords _ (by simp)) hnext
    obtain ⟨third, hskip, -, hnext⟩ := next_delivered (hwords kind (by simp)) hnext
    have hread : readCommand reader = ⟨[.newFile, .file name], some (some third)⟩ := by
      rw [readCommand, hcall]
      dsimp only
      rw [if_neg hlen, hstring]
      dsimp only
      rw [if_pos rfl, hname, Option.bind_some, hskip]
      rfl
    rw [events_next hread, ih (fun word hword => hwords word (by simp [hword])) hnext]
    rfl
  | @track words read number mode hspells ih =>
    obtain ⟨first, hcall, hlen, hstring, hnext⟩ := call_delivered (hwords _ (by simp)) h
    obtain ⟨second, hskip, -, hnext⟩ := @next_delivered number (mode :: words)
      (first.rest, first.token) (hwords _ (by simp)) hnext
    obtain ⟨third, -, hmode, hnext⟩ := next_delivered (hwords mode (by simp)) hnext
    have hread : readCommand reader =
        ⟨[.track (mode ≠ audioWord)], some (some third)⟩ := by
      rw [readCommand, hcall]
      dsimp only
      rw [if_neg hlen, hstring]
      dsimp only
      rw [if_neg (by decide), if_pos rfl, hskip, Option.bind_some, hmode]
      rfl
    rw [events_next hread, ih (fun word hword => hwords word (by simp [hword])) hnext]
    rfl
  | @index words read number stamp hspells ih =>
    obtain ⟨first, hcall, hlen, hstring, hnext⟩ := call_delivered (hwords _ (by simp)) h
    obtain ⟨second, hskip, -, hnext⟩ := @next_delivered number (stamp :: words)
      (first.rest, first.token) (hwords _ (by simp)) hnext
    obtain ⟨third, -, hstamp, hnext⟩ := next_delivered (hwords stamp (by simp)) hnext
    have hread : readCommand reader = ⟨[.index (scanStamp stamp)], some (some third)⟩ := by
      rw [readCommand, hcall]
      dsimp only
      rw [if_neg hlen, hstring]
      dsimp only
      rw [if_neg (by decide), if_neg (by decide), if_pos rfl, hskip, Option.bind_some, hstamp]
      rfl
    rw [events_next hread, ih (fun word hword => hwords word (by simp [hword])) hnext]
    rfl
  | @other words read word hfile htrack hindex hspells ih =>
    obtain ⟨first, hcall, hlen, hstring, hnext⟩ := call_delivered (hwords _ (by simp)) h
    have hread : readCommand reader =
        ⟨[.other], some (some (first.rest, first.token))⟩ := by
      rw [readCommand, hcall]
      dsimp only
      rw [if_neg hlen, hstring]
      dsimp only
      rw [if_neg hfile, if_neg htrack, if_neg hindex]
    rw [events_next hread,
      @ih (first.rest, first.token) (fun word hword => hwords word (by simp [hword])) hnext]
    rfl

end Words

/-- A word without quotes that white space ends. -/
theorem deliver_run {token : List UInt8} {word rest : Str} {b : UInt8} {words : List Str}
    (htoken : token.length = maxTokenLen) (hne : word ≠ [])
    (hword : word.all fun b => !isBlank b && b ≠ quote) (hlt : word.length < maxTokenLen)
    (hb : isBlank b)
    (h : ∀ token' : List UInt8, token'.length = maxTokenLen →
      Delivers maxTokenLen rest token' words) :
    Delivers maxTokenLen (word ++ b :: rest) token (word :: words) := by
  have hplain : ∀ b ∈ word, isBlank b = false ∧ b ≠ quote := by
    intro b hb
    simpa using List.all_eq_true.mp hword b hb
  obtain ⟨token', hcall, htake, hlen⟩ := @call_run maxTokenLen [] rest word token b htoken
    (fun _ hnone => nomatch hnone) hne hplain hlt (.inr hb)
  exact .token hcall hne htake (h token' hlen)

/-- `INDEX 1 x` -/
def unreadable : Str := indexWord ++ 32 :: ([49] ++ 32 :: ([120] ++ 10 :: []))

/-- A search of a sheet with nothing but an index whose time stamp cannot be read. -/
def unreadableGiven : Given where
  cuePath := []
  sheet := some unreadable
  fileSize := fun _ => -1
  fileSize_lt := fun _ => by decide
  errno := 0
  maxLen := pathMaxLength
  block := List.replicate maxTokenLen 0
  lastFile := []

theorem events_unreadable {token : List UInt8} (htoken : token.length = maxTokenLen) :
    events (unreadable, token) = ([.index none], true) := by
  have hdelivers : Delivers maxTokenLen unreadable token [indexWord, [49], [120]] := by
    apply deliver_run htoken (by decide) (by decide) (by decide) (by decide)
    intro token₁ htoken₁
    apply deliver_run htoken₁ (by decide) (by decide) (by decide) (by decide)
    intro token₂ htoken₂
    apply deliver_run htoken₂ (by decide) (by decide) (by decide) (by decide)
    intro token₃ htoken₃
    exact .none rfl
  exact @events_spelled _ (unreadable, token) _ (.index [49] [120] .done) (by decide) hdelivers

/-- With `errno` 0 the error is the answer for a track. -/
theorem unreadable_not_found : ¬Finds unreadableGiven := by
  intro hfinds
  apply (answerable_of_finds hfinds).errno rfl
  intro content hcontent
  obtain rfl := Option.some.inj hcontent
  have hstart : 0 < unreadableGiven.block.length := by
    rw [unreadableGiven, List.length_replicate]
    decide
  have htoken : (unreadableGiven.block.set 0 0).length = maxTokenLen := by
    rw [List.length_set, unreadableGiven, List.length_replicate]
  refine ⟨_, [], [], poke_of_lt hstart 0, ?_, List.not_mem_nil, fun _ hnone => nomatch hnone⟩
  rw [events_unreadable htoken]
  rfl

end RetroArch.Tasks.Cue
