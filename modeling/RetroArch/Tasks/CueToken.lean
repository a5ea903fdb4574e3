/- The reader of the tokens of cue and gdi sheets. The token lies in a block of memory, and a
   write outside of the block has no result. -/

import Mathlib.Data.List.TakeWhile
import RetroArch.Library.Memory

namespace RetroArch.Tasks.Cue

open Library.Memory

abbrev Str := List UInt8

def quote : UInt8 := 34

def isBlank (c : UInt8) : Bool := c = 32 || c = 9 || c = 13 || c = 10

structure TokenRead where
  len : ℕ
  /-- What of the stream is left. -/
  rest : Str
  token : List UInt8
  deriving DecidableEq

/-- The loop of `get_token`. `c` is `token + len` throughout. -/
def getTokenLoop (maxLen : ℕ) :
    Str → List UInt8 → (len : ℕ) → (inString : Bool) → Option TokenRead
  | [], token, _, _ => some ⟨0, [], token⟩
  | b :: content, token, len, inString =>
    (poke token len b).bind fun token =>
    let terminated := (poke token len 0).map fun token => ⟨len, content, token⟩
    let stored :=
      if len + 1 = maxLen then
        (poke token (len + 1) 0).map fun token => ⟨len + 1, content, token⟩
      else getTokenLoop maxLen content token (len + 1) inString
    if isBlank b then
      if len = 0 then getTokenLoop maxLen content token len inString
      else if inString then stored
      else terminated
    else if b = quote then
      if len = 0 then getTokenLoop maxLen content token len true
      else terminated
    else stored

def getToken (content : Str) (token : List UInt8) (maxLen : ℕ) : Option TokenRead :=
  getTokenLoop maxLen content token 0 false

theorem run_shorter {b : UInt8} {rest : Str} (h : isBlank b = false) :
    ((b :: rest).dropWhile (!isBlank ·)).length < (b :: rest).length := by
  rw [List.dropWhile_cons_of_pos (by simp [h])]
  exact Nat.lt_succ_of_le (List.dropWhile_suffix _).length_le

/-- The texts between two double quotes, and the other maximal runs without white space. -/
def tokens (content : Str) : List Str :=
  match _h : content.dropWhile isBlank with
  | [] => []
  | b :: rest =>
    let run := (b :: rest).takeWhile (!isBlank ·)
    if b = quote then
      match _hclosed : rest.dropWhile (· ≠ quote) with
      | _ :: behind => rest.takeWhile (· ≠ quote) :: tokens behind
      | [] => run :: tokens ((b :: rest).dropWhile (!isBlank ·))
    else run :: tokens ((b :: rest).dropWhile (!isBlank ·))
termination_by content.length
decreasing_by
  all_goals
    have hle := (List.dropWhile_suffix (l := content) isBlank).length_le
    rw [_h] at hle
  · have hbehind := (List.dropWhile_suffix (l := rest) (· ≠ quote)).length_le
    rw [_hclosed] at hbehind
    simp only [List.length_cons] at hle hbehind
    omega
  all_goals
    have hblank := List.head_dropWhile_not isBlank (by rw [_h]; exact List.cons_ne_nil b rest)
    simp only [_h, List.head_cons] at hblank
    exact Nat.lt_of_lt_of_le (run_shorter hblank) hle

/-- Calls one after the other read the tokens, each with its length and its terminator, until none
is left. -/
inductive Delivers (maxLen : ℕ) : Str → List UInt8 → List Str → Prop
  | none {content rest : Str} {token token' : List UInt8} :
      getToken content token maxLen = some ⟨0, rest, token'⟩ → Delivers maxLen content token []
  | token {content rest text : Str} {token token' : List UInt8} {texts : List Str} :
      getToken content token maxLen = some ⟨text.length, rest, token'⟩ → text ≠ [] →
      token'.take (text.length + 1) = text ++ [0] → Delivers maxLen rest token' texts →
      Delivers maxLen content token (text :: texts)

/-- A run has no quote in it and white space behind it, a quoted text is not empty and does not
begin with white space, both are shorter than the block, and there is a block unless there is
nothing to read. -/
inductive Plain (maxLen : ℕ) : Str → Prop
  | blank {blanks : Str} : (∀ b ∈ blanks, isBlank b) → (blanks ≠ [] → 0 < maxLen) →
      Plain maxLen blanks
  | run {blanks run rest : Str} {b : UInt8} : (∀ b ∈ blanks, isBlank b) → run ≠ [] →
      (∀ b ∈ run, isBlank b = false ∧ b ≠ quote) → run.length < maxLen → isBlank b →
      Plain maxLen rest → Plain maxLen (blanks ++ (run ++ b :: rest))
  | quoted {blanks text rest : Str} {b : UInt8} : (∀ b ∈ blanks, isBlank b) →
      isBlank b = false → quote ∉ b :: text → (b :: text).length < maxLen →
      Plain maxLen rest → Plain maxLen (blanks ++ quote :: (b :: text ++ quote :: rest))

section Loop

variable {maxLen len : ℕ} {content : Str} {token : List UInt8} {inString : Bool} {b : UInt8}

theorem loop_skip (h : isBlank b) (hpos : 0 < token.length) :
    getTokenLoop maxLen (b :: content) token 0 inString =
      getTokenLoop maxLen content (token.set 0 b) 0 inString := by
  rw [getTokenLoop, poke_of_lt hpos, Option.bind_some]
  dsimp only
  rw [if_pos h, if_pos rfl]

theorem loop_open (hpos : 0 < token.length) :
    getTokenLoop maxLen (quote :: content) token 0 inString =
      getTokenLoop maxLen content (token.set 0 quote) 0 true := by
  rw [getTokenLoop, poke_of_lt hpos, Option.bind_some]
  rfl

theorem loop_end (hlt : len < token.length) (hpos : 0 < len)
    (h : b = quote ∨ (isBlank b ∧ inString = false)) :
    getTokenLoop maxLen (b :: content) token len inString =
      some ⟨len, content, token.set len 0⟩ := by
  have hpoke : poke (token.set len b) len 0 = some (token.set len 0) := by
    rw [poke_of_lt (by rwa [List.length_set]), List.set_set]
  rw [getTokenLoop, poke_of_lt hlt, Option.bind_some]
  dsimp only
  rw [hpoke, Option.map_some]
  rcases h with rfl | ⟨hblank, rfl⟩
  · rw [if_neg (by decide), if_pos rfl, if_neg (Nat.ne_of_gt hpos)]
  · rw [if_pos hblank, if_neg (Nat.ne_of_gt hpos)]
    rfl

/-- The byte is a part of the token. -/
structure Stored (len : ℕ) (inString : Bool) (b : UInt8) : Prop where
  quote : b ≠ quote
  blank : isBlank b → 0 < len ∧ inString = true

theorem loop_store (h : Stored len inString b) (hlt : len < token.length) :
    getTokenLoop maxLen (b :: content) token len inString =
      if len + 1 = maxLen then
        (poke (token.set len b) (len + 1) 0).map fun token => ⟨len + 1, content, token⟩
      else getTokenLoop maxLen content (token.set len b) (len + 1) inString := by
  rw [getTokenLoop, poke_of_lt hlt, Option.bind_some]
  dsimp only
  by_cases hblank : isBlank b
  · have hstring := h.blank hblank
    rw [if_pos hblank, if_neg (Nat.ne_of_gt hstring.1), if_pos hstring.2]
  · rw [if_neg hblank, if_neg h.quote]

theorem loop_outside (h : token.length ≤ len) :
    getTokenLoop maxLen (b :: content) token len inString = none := by
  rw [getTokenLoop, poke_of_le h, Option.bind_none]

/-- The bytes of a token are stored one behind the other. -/
theorem loop_stores {text : Str} (htoken : token.length = maxLen)
    (hfirst : ∀ b, text.head? = some b → Stored len inString b)
    (hrest : ∀ b ∈ text, Stored (len + 1) inString b) (hfits : len + text.length < maxLen) :
    ∃ token', token'.length = maxLen ∧
      token'.take (len + text.length) = token.take len ++ text ∧
      getTokenLoop maxLen (text ++ content) token len inString =
        getTokenLoop maxLen content token' (len + text.length) inString := by
  induction text generalizing token len with
  | nil => exact ⟨token, htoken, (List.append_nil _).symm, rfl⟩
  | cons b text ih =>
    rw [List.length_cons] at hfits
    have hlt : len < token.length := by omega
    have hlast : ¬len + 1 = maxLen := by omega
    have hlater : ∀ c ∈ text, ∀ n, 0 < n → Stored n inString c := by
      intro c hc n hn
      have hstored := hrest c (List.mem_cons_of_mem b hc)
      exact ⟨hstored.quote, fun hblank => ⟨hn, (hstored.blank hblank).2⟩⟩
    obtain ⟨token', hlen, htake, hloop⟩ := @ih (len + 1) (token.set len b)
      (by rwa [List.length_set])
      (fun c hc => hlater c (List.mem_of_mem_head? hc) _ (Nat.succ_pos len))
      (fun c hc => hlater c hc _ (Nat.succ_pos _)) (by omega)
    have hset : (token.set len b).take (len + 1) = token.take len ++ [b] := by
      rw [List.take_add_one, List.getElem?_set_self hlt, List.take_set_of_le (Nat.le_refl len)]
      rfl
    refine ⟨token', hlen, ?_, ?_⟩
    · rw [List.length_cons, ← Nat.add_assoc, Nat.add_right_comm, htake, hset, List.append_assoc,
        List.singleton_append]
    · rw [List.cons_append, loop_store (hfirst b rfl) hlt, if_neg hlast, hloop, List.length_cons,
        Nat.add_assoc, Nat.add_comm 1]

theorem loop_overruns {text : Str} (htoken : token.length = maxLen) (hlt : len < maxLen)
    (hfirst : ∀ b, text.head? = some b → Stored len inString b)
    (hrest : ∀ b ∈ text, Stored (len + 1) inString b) (hlong : maxLen ≤ len + text.length) :
    getTokenLoop maxLen (text ++ content) token len inString = none := by
  induction text generalizing token len with
  | nil => exact absurd hlong (Nat.not_le.mpr hlt)
  | cons b text ih =>
    rw [List.length_cons] at hlong
    have hlater : ∀ c ∈ text, ∀ n, 0 < n → Stored n inString c := by
      intro c hc n hn
      have hstored := hrest c (List.mem_cons_of_mem b hc)
      exact ⟨hstored.quote, fun hblank => ⟨hn, (hstored.blank hblank).2⟩⟩
    rw [List.cons_append, loop_store (hfirst b rfl) (htoken ▸ hlt)]
    by_cases hlast : len + 1 = maxLen
    · have hout : (token.set len b).length ≤ len + 1 := by
        rw [List.length_set]
        omega
      rw [if_pos hlast, poke_of_le hout, Option.map_none]
    · rw [if_neg hlast]
      exact ih (by rwa [List.length_set]) (by omega)
        (fun c hc => hlater c (List.mem_of_mem_head? hc) _ (Nat.succ_pos len))
        (fun c hc => hlater c hc _ (Nat.succ_pos _)) (by omega)

theorem loop_blanks {blanks : Str} (hblanks : ∀ b ∈ blanks, isBlank b) (hpos : 0 < token.length) :
    ∃ token', token'.length = token.length ∧
      getTokenLoop maxLen (blanks ++ content) token 0 inString =
        getTokenLoop maxLen content token' 0 inString := by
  induction blanks generalizing token with
  | nil => exact ⟨token, rfl, rfl⟩
  | cons b blanks ih =>
    obtain ⟨token', hlen, hloop⟩ := @ih (token.set 0 b)
      (fun c hc => hblanks c (List.mem_cons_of_mem b hc)) (by rwa [List.length_set])
    refine ⟨token', hlen.trans List.length_set, ?_⟩
    rw [List.cons_append, loop_skip (hblanks b List.mem_cons_self) hpos, hloop]

theorem loop_head {read : TokenRead}
    (h : getTokenLoop maxLen content token len inString = some read) (hread : 0 < read.len) :
    (0 < len → read.token.head? = token.head?) ∧
      (len = 0 → ∃ c, read.token.head? = some c ∧ isBlank c = false) := by
  have hset : ∀ (token : List UInt8) (n : ℕ) (c : UInt8), 0 < n →
      (token.set n c).head? = token.head? := by
    intro token n c hn
    obtain ⟨k, rfl⟩ := Nat.exists_eq_add_one.mpr hn
    cases token <;> rfl
  induction content generalizing token len inString with
  | nil =>
    rw [getTokenLoop] at h
    obtain rfl := Option.some.inj h
    exact absurd hread (Nat.lt_irrefl 0)
  | cons b content ih =>
    by_cases hlt : len < token.length
    · by_cases hstored : Stored len inString b
      · rw [loop_store hstored hlt] at h
        have hread' : read.token.head? = (token.set len b).head? := by
          split_ifs at h
          · obtain ⟨token', hpoke, rfl⟩ := Option.map_eq_some_iff.mp h
            unfold poke at hpoke
            split_ifs at hpoke
            obtain rfl := Option.some.inj hpoke
            exact hset _ _ _ (Nat.succ_pos len)
          · exact (ih h).1 (Nat.succ_pos len)
        constructor
        · intro hpos
          rw [hread', hset _ _ _ hpos]
        · rintro rfl
          refine ⟨b, ?_, ?_⟩
          · rw [hread']
            cases token with
            | nil => exact absurd hlt (Nat.lt_irrefl 0)
            | cons a token => rfl
          · by_contra hblank
            rw [Bool.not_eq_false] at hblank
            exact absurd (hstored.blank hblank).1 (Nat.lt_irrefl 0)
      · rcases Nat.eq_zero_or_pos len with rfl | hpos
        · have hnext : ∃ s, getTokenLoop maxLen content (token.set 0 b) 0 s = some read := by
            by_cases hblank : isBlank b
            · rw [loop_skip hblank hlt] at h
              exact ⟨_, h⟩
            · have hquote : b = quote := by
                by_contra hne
                exact hstored ⟨hne, fun hb => absurd hb hblank⟩
              rw [hquote, loop_open hlt] at h
              exact ⟨_, hquote ▸ h⟩
          obtain ⟨s, hnext⟩ := hnext
          exact ⟨fun hpos => absurd hpos (Nat.lt_irrefl 0), fun _ => (ih hnext).2 rfl⟩
        · have hend : b = quote ∨ (isBlank b ∧ inString = false) := by
            by_contra hnot
            rw [not_or, not_and] at hnot
            exact hstored ⟨hnot.1, fun hblank => ⟨hpos, by simpa using hnot.2 hblank⟩⟩
          rw [loop_end hlt hpos hend] at h
          obtain rfl := Option.some.inj h
          exact ⟨fun _ => hset _ _ _ hpos, fun hzero => absurd hzero (Nat.ne_of_gt hpos)⟩
    · rw [loop_outside (Nat.le_of_not_lt hlt)] at h
      exact nomatch h

end Loop

section Calls

variable {maxLen : ℕ} {blanks rest text : Str} {token : List UInt8} {b : UInt8}

theorem take_terminated {token' : List UInt8} {n : ℕ} (hlt : n < token'.length)
    (htake : token'.take n = text) : (token'.set n 0).take (n + 1) = text ++ [0] := by
  rw [List.take_add_one, List.getElem?_set_self hlt, List.take_set_of_le (Nat.le_refl n), htake]
  rfl

theorem call_blank (htoken : token.length = maxLen) (hblanks : ∀ b ∈ blanks, isBlank b)
    (hpos : blanks ≠ [] → 0 < maxLen) :
    ∃ token', getToken blanks token maxLen = some ⟨0, [], token'⟩ := by
  by_cases hnil : blanks = []
  · subst hnil
    exact ⟨token, rfl⟩
  · obtain ⟨token', -, hloop⟩ := @loop_blanks maxLen [] token false blanks hblanks
      (htoken ▸ hpos hnil)
    rw [List.append_nil] at hloop
    exact ⟨token', hloop⟩

theorem stored_run (h : ∀ b ∈ text, isBlank b = false ∧ b ≠ quote) (n : ℕ) :
    ∀ b ∈ text, Stored n false b := by
  intro b hb
  exact ⟨(h b hb).2, fun hblank => absurd hblank (by simp [(h b hb).1])⟩

theorem stored_quoted (h : quote ∉ text) (n : ℕ) : ∀ b ∈ text, Stored (n + 1) true b := by
  intro b hb
  exact ⟨fun heq => h (heq ▸ hb), fun _ => ⟨Nat.succ_pos n, rfl⟩⟩

theorem first_quoted (hb : isBlank b = false) (h : quote ∉ b :: text) :
    ∀ c, (b :: text).head? = some c → Stored 0 true c := by
  intro c hc
  obtain rfl := Option.some.inj hc
  exact ⟨fun heq => h (heq ▸ List.mem_cons_self), fun hblank => absurd hblank (by simp [hb])⟩

theorem loop_unended {read : TokenRead} {inString : Bool} (htoken : token.length = maxLen)
    (hpos : 0 < maxLen) (hfirst : ∀ b, text.head? = some b → Stored 0 inString b)
    (hrest : ∀ b ∈ text, Stored 1 inString b)
    (h : getTokenLoop maxLen text token 0 inString = some read) : read.len = 0 := by
  rw [← List.append_nil text] at h
  by_cases hfits : 0 + text.length < maxLen
  · obtain ⟨token', -, -, hloop⟩ := @loop_stores maxLen 0 [] token inString text htoken hfirst hrest
      hfits
    rw [hloop, getTokenLoop] at h
    exact (congrArg TokenRead.len (Option.some.inj h)).symm
  · have hover := @loop_overruns maxLen 0 [] token inString text htoken hpos hfirst hrest
      (Nat.le_of_not_lt hfits)
    exact nomatch hover.symm.trans h

theorem call_quote (htoken : token.length = maxLen) (hpos : 0 < maxLen)
    (hblanks : ∀ b ∈ blanks, isBlank b) (content : Str) :
    ∃ token', token'.length = maxLen ∧ getToken (blanks ++ quote :: content) token maxLen =
      getTokenLoop maxLen content token' 0 true := by
  obtain ⟨token', hlen, hloop⟩ :=
    @loop_blanks maxLen (quote :: content) token false blanks hblanks (by omega)
  refine ⟨token'.set 0 quote, List.length_set.trans (hlen.trans htoken), ?_⟩
  rw [getToken, hloop, loop_open (by omega)]

theorem first_run (h : ∀ b ∈ text, isBlank b = false ∧ b ≠ quote) :
    ∀ b, text.head? = some b → Stored 0 false b := by
  intro b hb
  exact stored_run h 0 b (List.mem_of_mem_head? hb)

theorem call_run (htoken : token.length = maxLen) (hblanks : ∀ b ∈ blanks, isBlank b)
    (hne : text ≠ []) (htext : ∀ b ∈ text, isBlank b = false ∧ b ≠ quote)
    (hlt : text.length < maxLen) (hb : b = quote ∨ isBlank b) :
    ∃ token', getToken (blanks ++ (text ++ b :: rest)) token maxLen =
        some ⟨text.length, rest, token'⟩ ∧
      token'.take (text.length + 1) = text ++ [0] ∧ token'.length = maxLen := by
  have hpos : 0 < text.length := List.length_pos_iff.mpr hne
  obtain ⟨token₁, hlen₁, hloop₁⟩ :=
    @loop_blanks maxLen (text ++ b :: rest) token false blanks hblanks (by omega)
  obtain ⟨token₂, hlen₂, htake, hloop₂⟩ :=
    @loop_stores maxLen 0 (b :: rest) token₁ false text (hlen₁.trans htoken)
      (first_run htext) (stored_run htext 1) (by omega)
  rw [Nat.zero_add, List.take_zero, List.nil_append] at htake
  rw [Nat.zero_add] at hloop₂
  have hend := @loop_end maxLen text.length rest token₂ false b (by omega) hpos
    (hb.imp_right fun hblank => ⟨hblank, rfl⟩)
  exact ⟨token₂.set text.length 0, (hloop₁.trans hloop₂).trans hend,
    take_terminated (by omega) htake, List.length_set.trans hlen₂⟩

theorem call_quoted (htoken : token.length = maxLen) (hblanks : ∀ b ∈ blanks, isBlank b)
    (hb : isBlank b = false) (hclosed : quote ∉ b :: text) (hlt : (b :: text).length < maxLen) :
    ∃ token', getToken (blanks ++ quote :: (b :: text ++ quote :: rest)) token maxLen =
        some ⟨(b :: text).length, rest, token'⟩ ∧
      token'.take ((b :: text).length + 1) = b :: text ++ [0] ∧ token'.length = maxLen := by
  obtain ⟨token₁, hlen₁, hloop₁⟩ :=
    @call_quote maxLen blanks token htoken (by omega) hblanks (b :: text ++ quote :: rest)
  obtain ⟨token₂, hlen₂, htake, hloop₂⟩ :=
    @loop_stores maxLen 0 (quote :: rest) token₁ true (b :: text) hlen₁ (first_quoted hb hclosed)
      (stored_quoted hclosed 0) (by omega)
  rw [Nat.zero_add, List.take_zero, List.nil_append] at htake
  rw [Nat.zero_add] at hloop₂
  have hend := @loop_end maxLen (b :: text).length rest token₂ true quote (by omega)
    (Nat.succ_pos _) (.inl rfl)
  exact ⟨token₂.set (b :: text).length 0, (hloop₁.trans hloop₂).trans hend,
    take_terminated (by omega) htake, List.length_set.trans hlen₂⟩

end Calls

section Tokens

variable {content blanks rest text : Str} {b : UInt8}

theorem tokens_nil (h : content.dropWhile isBlank = []) : tokens content = [] := by
  rw [tokens]
  split
  · rfl
  · rename_i hdrop
    rw [h] at hdrop
    exact nomatch hdrop

theorem tokens_run (h : content.dropWhile isBlank = b :: rest) (hb : b ≠ quote) :
    tokens content = (b :: rest).takeWhile (!isBlank ·) ::
      tokens ((b :: rest).dropWhile (!isBlank ·)) := by
  rw [tokens]
  split
  · rename_i hdrop
    rw [h] at hdrop
    exact nomatch hdrop
  · rename_i hdrop
    obtain ⟨rfl, rfl⟩ := List.cons.inj (h.symm.trans hdrop)
    exact if_neg hb

theorem tokens_ne_nil (h : content.dropWhile isBlank = quote :: rest) : tokens content ≠ [] := by
  rw [tokens]
  split
  · rename_i hdrop
    rw [h] at hdrop
    exact nomatch hdrop
  · rename_i hdrop
    obtain ⟨rfl, rfl⟩ := List.cons.inj (h.symm.trans hdrop)
    dsimp only
    rw [if_pos rfl]
    split <;> exact List.cons_ne_nil _ _

theorem tokens_quoted (h : content.dropWhile isBlank = quote :: rest) {behind : Str}
    (hclosed : rest.dropWhile (· ≠ quote) = b :: behind) :
    tokens content = rest.takeWhile (· ≠ quote) :: tokens behind := by
  rw [tokens]
  split
  · rename_i hdrop
    rw [h] at hdrop
    exact nomatch hdrop
  · rename_i hdrop
    obtain ⟨rfl, rfl⟩ := List.cons.inj (h.symm.trans hdrop)
    dsimp only
    rw [if_pos rfl]
    split
    · rename_i hfound
      obtain ⟨-, rfl⟩ := List.cons.inj (hclosed.symm.trans hfound)
      rfl
    · rename_i hfound
      rw [hclosed] at hfound
      exact nomatch hfound

theorem tokens_skip (h : isBlank b) (content : Str) : tokens (b :: content) = tokens content := by
  have hdrop : (b :: content).dropWhile isBlank = content.dropWhile isBlank :=
    List.dropWhile_cons_of_pos h
  rw [tokens, tokens, hdrop]

end Tokens

section Delivery

variable {maxLen : ℕ} {content : Str}

theorem delivers_of_plain (h : Plain maxLen content) {token : List UInt8}
    (htoken : token.length = maxLen) : Delivers maxLen content token (tokens content) := by
  induction h generalizing token with
  | @blank blanks hblanks hpos =>
    obtain ⟨token', hcall⟩ := call_blank htoken hblanks hpos
    rw [tokens_nil (List.dropWhile_eq_nil_iff.mpr hblanks)]
    exact .none hcall
  | @run blanks run rest b hblanks hne hrun hlt hb _ ih =>
    obtain ⟨token', hcall, htake, hlen⟩ := @call_run maxLen blanks rest run token b htoken hblanks
      hne hrun hlt (.inr hb)
    cases run with
    | nil => exact absurd rfl hne
    | cons c run =>
      have hc := hrun c List.mem_cons_self
      have hdrop : (blanks ++ (c :: run ++ b :: rest)).dropWhile isBlank =
          c :: (run ++ b :: rest) := by
        rw [List.dropWhile_append_of_pos hblanks, List.cons_append,
          List.dropWhile_cons_of_neg (by simp [hc.1])]
      have hall : ∀ a ∈ c :: run, (!isBlank a) = true := fun a ha => by simp [(hrun a ha).1]
      rw [tokens_run hdrop hc.2, ← List.cons_append, List.takeWhile_append_of_pos hall,
        List.dropWhile_append_of_pos hall, List.takeWhile_cons_of_neg (by simp [hb]),
        List.dropWhile_cons_of_neg (by simp [hb]), List.append_nil, tokens_skip hb]
      exact .token hcall hne htake (ih hlen)
  | @quoted blanks text rest b hblanks hb hclosed hlt _ ih =>
    obtain ⟨token', hcall, htake, hlen⟩ :=
      @call_quoted maxLen blanks rest text token b htoken hblanks hb hclosed hlt
    have hdrop : (blanks ++ quote :: (b :: text ++ quote :: rest)).dropWhile isBlank =
        quote :: (b :: text ++ quote :: rest) := by
      rw [List.dropWhile_append_of_pos hblanks, List.dropWhile_cons_of_neg (by decide)]
    have hall : ∀ a ∈ b :: text, decide (a ≠ quote) = true := by
      intro a ha
      exact decide_eq_true fun heq => hclosed (heq ▸ ha)
    have hbehind : (b :: text ++ quote :: rest).dropWhile (· ≠ quote) = quote :: rest := by
      rw [List.dropWhile_append_of_pos hall, List.dropWhile_cons_of_neg (by simp)]
    have htext : (b :: text ++ quote :: rest).takeWhile (· ≠ quote) = b :: text := by
      rw [List.takeWhile_append_of_pos hall, List.takeWhile_cons_of_neg (by simp),
        List.append_nil]
    rw [tokens_quoted hdrop hbehind, htext]
    exact .token hcall (List.cons_ne_nil b text) htake (ih hlen)

theorem delivers_next {token : List UInt8} {texts : List Str} {text : Str}
    (h : Delivers maxLen content token (text :: texts)) :
    ∃ rest token', getToken content token maxLen = some ⟨text.length, rest, token'⟩ ∧ text ≠ [] ∧
      token'.take (text.length + 1) = text ++ [0] ∧ Delivers maxLen rest token' texts := by
  cases h with
  | token hcall hne htake hnext => exact ⟨_, _, hcall, hne, htake, hnext⟩

theorem block_of_delivers {token : List UInt8} {texts : List Str} (htoken : token.length = maxLen)
    (h : Delivers maxLen content token texts) (hne : content ≠ []) : 0 < maxLen := by
  by_contra hzero
  have hnone : getToken content token maxLen = none := by
    cases content with
    | nil => exact absurd rfl hne
    | cons b content => exact loop_outside (by omega)
  cases h with
  | none hcall => exact nomatch hnone.symm.trans hcall
  | token hcall _ _ _ => exact nomatch hnone.symm.trans hcall

/-- A run that is delivered is shorter than the block, and ends at white space. -/
theorem run_of_delivers {token : List UInt8} {blanks rest : Str} {b : UInt8}
    (htoken : token.length = maxLen) (hpos : 0 < maxLen) (hblanks : ∀ b ∈ blanks, isBlank b)
    (hb : isBlank b = false) (hquote : b ≠ quote) {texts : List Str}
    (h : Delivers maxLen (blanks ++ b :: rest) token
      ((b :: rest).takeWhile (!isBlank ·) :: texts)) :
    ∃ run c behind token', b :: rest = run ++ c :: behind ∧ run ≠ [] ∧
      (∀ a ∈ run, isBlank a = false ∧ a ≠ quote) ∧ run.length < maxLen ∧ isBlank c ∧
        token'.length = maxLen ∧ Delivers maxLen behind token' texts := by
  obtain ⟨left, token', hcall, hne, htake, hnext⟩ := delivers_next h
  have hsplit : (b :: rest).takeWhile (fun c => !isBlank c && c ≠ quote) ++
      (b :: rest).dropWhile (fun c => !isBlank c && c ≠ quote) = b :: rest :=
    List.takeWhile_append_dropWhile
  have hrun : ∀ a ∈ (b :: rest).takeWhile (fun c => !isBlank c && c ≠ quote),
      isBlank a = false ∧ a ≠ quote := by
    intro a ha
    have hstored := List.mem_takeWhile_imp ha
    simpa using hstored
  have hrunne : (b :: rest).takeWhile (fun c => !isBlank c && c ≠ quote) ≠ [] := by
    rw [List.takeWhile_cons_of_pos (by simp [hb, hquote])]
    exact List.cons_ne_nil _ _
  generalize (b :: rest).takeWhile (fun c => !isBlank c && c ≠ quote) = run at hsplit hrun hrunne
  obtain ⟨token₁, hlen₁, hloop₁⟩ := @loop_blanks maxLen (b :: rest) token false blanks hblanks
    (by omega)
  rw [getToken, hloop₁] at hcall
  cases htail : (b :: rest).dropWhile (fun c => !isBlank c && c ≠ quote) with
  | nil =>
    rw [htail, List.append_nil] at hsplit
    rw [← hsplit] at hcall hne
    have hzero := loop_unended (hlen₁.trans htoken) hpos (first_run hrun) (stored_run hrun 1)
      hcall
    exact absurd (List.length_eq_zero_iff.mp hzero) hne
  | cons c behind =>
    rw [htail] at hsplit
    have hc := List.head_dropWhile_not (fun c => !isBlank c && c ≠ quote)
      (by rw [htail]; exact List.cons_ne_nil c behind)
    simp only [htail, List.head_cons, Bool.and_eq_false_iff, Bool.not_eq_false',
      decide_eq_false_iff_not, not_not] at hc
    have hshort : run.length < maxLen := by
      by_contra hlong
      have hover := @loop_overruns maxLen 0 (c :: behind) token₁ false run (hlen₁.trans htoken)
        hpos (first_run hrun) (stored_run hrun 1) (by omega)
      rw [hsplit] at hover
      exact nomatch hover.symm.trans hcall
    obtain ⟨token₂, hcall₂, htake₂, hlen₂⟩ := @call_run maxLen blanks behind run token c htoken
      hblanks hrunne hrun hshort hc.symm
    rw [hsplit, getToken, hloop₁, hcall] at hcall₂
    obtain ⟨hlen, rfl, rfl⟩ := TokenRead.mk.inj (Option.some.inj hcall₂)
    rw [← hsplit] at hlen
    have hall : ∀ a ∈ run, (!isBlank a) = true := fun a ha => by simp [(hrun a ha).1]
    rw [List.takeWhile_append_of_pos hall, List.length_append] at hlen
    have hblank : isBlank c := by
      by_contra hnot
      rw [List.takeWhile_cons_of_pos (by simpa using hnot), List.length_cons] at hlen
      omega
    exact ⟨run, c, left, token', hsplit.symm, hrunne, hrun, hshort, hblank, hlen₂, hnext⟩

theorem quoted_of_delivers {token : List UInt8} {blanks rest : Str}
    (htoken : token.length = maxLen) (hpos : 0 < maxLen) (hblanks : ∀ b ∈ blanks, isBlank b)
    {texts : List Str} (hne : texts ≠ [])
    (h : Delivers maxLen (blanks ++ quote :: rest) token texts) : quote ∈ rest := by
  by_contra hopen
  cases texts with
  | nil => exact hne rfl
  | cons text texts =>
    obtain ⟨left, token', hcall, htext, -, -⟩ := delivers_next h
    obtain ⟨token₁, hlen₁, hloop₁⟩ := call_quote htoken hpos hblanks rest
    have hsplit : rest.takeWhile isBlank ++ rest.dropWhile isBlank = rest :=
      List.takeWhile_append_dropWhile
    obtain ⟨token₂, hlen₂, hloop₂⟩ := @loop_blanks maxLen (rest.dropWhile isBlank) token₁ true
      (rest.takeWhile isBlank) (fun b hb => List.mem_takeWhile_imp hb) (by omega)
    rw [hsplit] at hloop₂
    rw [hloop₁, hloop₂] at hcall
    have hquote : ∀ b ∈ rest.dropWhile isBlank, b ≠ quote := by
      rintro b hb rfl
      exact hopen ((List.dropWhile_suffix _).subset hb)
    have hfirst : ∀ b, (rest.dropWhile isBlank).head? = some b → Stored 0 true b := by
      intro b hb
      have hblank := List.head?_dropWhile_not isBlank rest
      rw [hb] at hblank
      exact ⟨hquote b (List.mem_of_mem_head? hb), fun h => absurd h (by simp [hblank])⟩
    have hzero := loop_unended (hlen₂.trans hlen₁) hpos hfirst
      (stored_quoted (fun hmem => hquote quote hmem rfl) 0) hcall
    exact htext (List.length_eq_zero_iff.mp hzero)

/-- A quoted text that is delivered does not begin with white space, and is shorter than the
block. -/
theorem text_of_delivers {token : List UInt8} {blanks text behind : Str}
    (htoken : token.length = maxLen) (hpos : 0 < maxLen) (hblanks : ∀ b ∈ blanks, isBlank b)
    (hclosed : quote ∉ text) {texts : List Str}
    (h : Delivers maxLen (blanks ++ quote :: (text ++ quote :: behind)) token (text :: texts)) :
    ∃ b rest token', text = b :: rest ∧ isBlank b = false ∧ text.length < maxLen ∧
      token'.length = maxLen ∧ Delivers maxLen behind token' texts := by
  obtain ⟨left, token', hcall, hne, htake, hnext⟩ := delivers_next h
  cases text with
  | nil => exact absurd rfl hne
  | cons b rest =>
    have hb : isBlank b = false := by
      obtain ⟨c, hhead, hc⟩ := (loop_head hcall (Nat.succ_pos _)).2 rfl
      have hfirst := congrArg List.head? htake
      rw [List.head?_take, if_neg (Nat.succ_ne_zero _)] at hfirst
      exact Option.some.inj (hhead.symm.trans hfirst) ▸ hc
    obtain ⟨token₁, hlen₁, hloop₁⟩ :=
      call_quote htoken hpos hblanks (b :: rest ++ quote :: behind)
    have hshort : (b :: rest).length < maxLen := by
      by_contra hlong
      have hover := @loop_overruns maxLen 0 (quote :: behind) token₁ true (b :: rest) hlen₁ hpos
        (first_quoted hb hclosed) (stored_quoted hclosed 0) (by omega)
      rw [hloop₁, hover] at hcall
      exact nomatch hcall
    obtain ⟨token₂, hcall₂, -, hlen₂⟩ :=
      @call_quoted maxLen blanks behind rest token b htoken hblanks hb hclosed hshort
    rw [hcall] at hcall₂
    obtain ⟨-, rfl, rfl⟩ := TokenRead.mk.inj (Option.some.inj hcall₂)
    exact ⟨b, rest, token', rfl, hb, hshort, hlen₂, hnext⟩

theorem plain_of_delivers {token : List UInt8} (htoken : token.length = maxLen)
    (h : Delivers maxLen content token (tokens content)) : Plain maxLen content := by
  induction hn : content.length using Nat.strong_induction_on generalizing content token with
  | h n ih =>
  subst hn
  have hsplit : content.takeWhile isBlank ++ content.dropWhile isBlank = content :=
    List.takeWhile_append_dropWhile
  have hblanks : ∀ b ∈ content.takeWhile isBlank, isBlank b := fun b hb =>
    List.mem_takeWhile_imp hb
  have hblock := block_of_delivers htoken h
  cases hdrop : content.dropWhile isBlank with
  | nil => exact .blank (List.dropWhile_eq_nil_iff.mp hdrop) hblock
  | cons b rest =>
    have hb := List.head?_dropWhile_not isBlank content
    rw [hdrop] at hsplit hb
    dsimp only [List.head?_cons] at hb
    have hlen := congrArg List.length hsplit
    rw [List.length_append] at hlen
    have hpos : 0 < maxLen := by
      apply hblock
      rintro rfl
      exact nomatch hdrop
    by_cases hquote : b = quote
    · subst hquote
      have hmem : quote ∈ rest :=
        quoted_of_delivers htoken hpos hblanks (tokens_ne_nil hdrop) (hsplit.symm ▸ h)
      obtain ⟨text, behind, rfl, hclosed⟩ := List.eq_append_cons_of_mem hmem
      have hall : ∀ a ∈ text, decide (a ≠ quote) = true := by
        intro a ha
        exact decide_eq_true fun heq => hclosed (heq ▸ ha)
      have hbehind : (text ++ quote :: behind).dropWhile (· ≠ quote) = quote :: behind := by
        rw [List.dropWhile_append_of_pos hall, List.dropWhile_cons_of_neg (by simp)]
      have htext : (text ++ quote :: behind).takeWhile (· ≠ quote) = text := by
        rw [List.takeWhile_append_of_pos hall, List.takeWhile_cons_of_neg (by simp),
          List.append_nil]
      rw [tokens_quoted hdrop hbehind, htext, ← hsplit] at h
      obtain ⟨c, inner, token', rfl, hc, hlt, hlen', hnext⟩ :=
        text_of_delivers htoken hpos hblanks hclosed h
      simp only [List.length_cons, List.length_append] at hlen
      have hrest := ih behind.length (by omega) hlen' hnext rfl
      rw [← hsplit]
      exact .quoted hblanks hc hclosed hlt hrest
    · rw [tokens_run hdrop hquote, ← hsplit] at h
      obtain ⟨run, c, behind, token', hrun, hne, hall, hlt, hc, hlen', hnext⟩ :=
        run_of_delivers htoken hpos hblanks hb hquote h
      have hdropRun : (b :: rest).dropWhile (!isBlank ·) = c :: behind := by
        rw [hrun, List.dropWhile_append_of_pos fun a ha => by simp [(hall a ha).1],
          List.dropWhile_cons_of_neg (by simp [hc])]
      rw [hdropRun, tokens_skip hc] at hnext
      rw [hrun, List.length_append, List.length_cons] at hlen
      have hrest := ih behind.length (by omega) hlen' hnext rfl
      rw [← hsplit, hrun]
      exact .run hblanks hne hall hlt hc hrest

/-- Every token of a content is delivered to a block exactly if the content is plain. -/
theorem delivers_iff (maxLen : ℕ) (content : Str) :
    (∀ token : List UInt8, token.length = maxLen → Delivers maxLen content token (tokens content)) ↔
      Plain maxLen content := by
  constructor
  · intro h
    have hlen : (List.replicate maxLen (0 : UInt8)).length = maxLen := List.length_replicate
    exact plain_of_delivers hlen (h _ hlen)
  · intro h token htoken
    exact delivers_of_plain h htoken

/-- The token of a file that ends behind it is lost. -/
theorem last_token_lost :
    ¬∀ (maxLen : ℕ) (content : Str) (token : List UInt8), token.length = maxLen →
      Delivers maxLen content token (tokens content) := by
  intro h
  have hdelivers := h 2 [97] [0, 0] rfl
  have htokens : tokens [97] = [[97]] := by
    rw [tokens_run rfl (by decide), tokens_nil rfl]
    rfl
  rw [htokens] at hdelivers
  obtain ⟨rest, token', hcall, -⟩ := delivers_next hdelivers
  have hzero : getToken [97] [0, 0] 2 = some ⟨0, [], [97, 0]⟩ := by decide
  exact nomatch hzero.symm.trans hcall

end Delivery

end RetroArch.Tasks.Cue
