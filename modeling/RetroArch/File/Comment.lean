/- Stripping the comment of a line of a configuration, in the memory that holds the line. -/

import RetroArch.File.Config
import RetroArch.Library.CString

namespace RetroArch.File.Comment

open Config Library.CString Library.Memory

/-- A line without its terminator. -/
structure Line where
  text : Str
  unterminated : (0 : UInt8) ∉ text

/-- The bytes that belong to a line. -/
def Line.block (line : Line) : List UInt8 := line.text ++ [0]

/-- `strchr`, or the end of the string where there is no such character. -/
def strchrOr (mem : List UInt8) (str : ℕ) (b : UInt8) (stringEnd : ℕ) : Option ℕ :=
  (strchr mem str b).map fun found => found.getD stringEnd

/-- The body of the loop: the mode, the place and the memory after it. -/
def stripRound (stringEnd : ℕ) (cutComment : Bool) (str : ℕ) (mem : List UInt8) :
    Option (Bool × ℕ × List UInt8) :=
  (strchrOr mem str quote stringEnd).bind fun literal =>
    (strchrOr mem str hash stringEnd).bind fun comment =>
      if cutComment = true ∧ literal < comment then some (false, literal + 1, mem)
      -- `literal` is never NULL here
      else if cutComment = false then some (true, literal + 1, mem)
      else (poke mem comment 0).map fun mem => (cutComment, comment, mem)

/-- The inner `none` is an access outside of the block, the outer one a loop that still runs. -/
def stripLoop : ℕ → ℕ → Bool → ℕ → List UInt8 → Option (Option (List UInt8 × ℕ))
  | 0, _, _, _, _ => none
  | rounds + 1, stringEnd, cutComment, str, mem =>
    match mem[str]? with
    | none => some none
    | some b =>
      if b = 0 then some (some (mem, str))
      else
        match stripRound stringEnd cutComment str mem with
        | none => some none
        | some (cutComment, str, mem) => stripLoop rounds stringEnd cutComment str mem

def stripCommentIn (rounds : ℕ) (mem : List UInt8) : Option (Option (List UInt8 × ℕ)) :=
  match strlen mem 0 with
  | none => some none
  | some stringEnd => stripLoop rounds stringEnd true 0 mem

/-- A `#` with the quotes before it paired. -/
def Outside (text : Str) (i : ℕ) : Prop :=
  text[i]? = some hash ∧ Even ((text.take i).count quote)

/-- The line is cut at its first `#` outside quotes, and only there. -/
def Stripped (text : Str) (mem : List UInt8) (str : ℕ) : Prop :=
  (Outside text str ∧ (∀ j < str, ¬ Outside text j) ∧ mem = (text ++ [0]).set str 0) ∨
    ((∀ j, ¬ Outside text j) ∧ str = text.length ∧ mem = text ++ [0])

def StripsInside (line : Line) : Prop :=
  ∃ rounds mem str, stripCommentIn rounds line.block = some (some (mem, str)) ∧
    Stripped line.text mem str

/-- No unpaired quote has characters behind it. -/
def Settled (text : Str) : Prop :=
  (∃ i, Outside text i) ∨ Even (text.count quote) ∨ text.getLast? = some quote

section Scanning

variable {pre seg more rest : Str}

theorem outside_within (hseg : quote ∉ seg) {k : ℕ} (hk : k < seg.length) :
    Outside (pre ++ (seg ++ more)) (pre.length + k) ↔
      seg[k]? = some hash ∧ Even (pre.count quote) := by
  have hget : (pre ++ (seg ++ more))[pre.length + k]? = seg[k]? := by
    rw [List.getElem?_append_right (Nat.le_add_right _ _), Nat.add_sub_cancel_left,
      List.getElem?_append_left hk]
  have htake : (pre ++ (seg ++ more)).take (pre.length + k) = pre ++ seg.take k := by
    rw [List.take_length_add_append, List.take_append_of_le_length hk.le]
  have hcount : (seg.take k).count quote = 0 :=
    List.count_eq_zero.mpr fun h => hseg (List.mem_of_mem_take h)
  rw [Outside, hget, htake, List.count_append, hcount, Nat.add_zero]

theorem not_outside_quote :
    ¬ Outside (pre ++ (seg ++ quote :: more)) (pre.length + seg.length) := by
  rintro ⟨hget, -⟩
  rw [List.getElem?_append_right (Nat.le_add_right _ _), Nat.add_sub_cancel_left,
    List.getElem?_append_right (le_refl _), Nat.sub_self] at hget
  exact absurd (Option.some.inj hget) (by decide)

theorem not_outside_end {text : Str} {j : ℕ} (hj : text.length ≤ j) : ¬ Outside text j := by
  rintro ⟨hget, -⟩
  rw [List.getElem?_eq_none hj] at hget
  cases hget

theorem place_cases {j : ℕ} (hj : j < pre.length + seg.length) :
    j < pre.length ∨ ∃ k, k < seg.length ∧ j = pre.length + k := by
  by_cases hpre : j < pre.length
  · exact .inl hpre
  · exact .inr ⟨j - pre.length, by omega, by omega⟩

/-- Up to the next quote there is no `#` outside quotes, if there is none at all or the quotes
before are unpaired. -/
theorem not_outside_before (hpre : ∀ j < pre.length, ¬ Outside (pre ++ (seg ++ more)) j)
    (hseg : quote ∉ seg) (hhash : hash ∉ seg ∨ ¬ Even (pre.count quote)) :
    ∀ j < pre.length + seg.length, ¬ Outside (pre ++ (seg ++ more)) j := by
  intro j hj
  rcases place_cases hj with hbefore | ⟨k, hk, rfl⟩
  · exact hpre j hbefore
  · rw [outside_within hseg hk]
    rintro ⟨hget, heven⟩
    rcases hhash with hnone | hodd
    · exact hnone (List.mem_of_getElem? hget)
    · exact hodd heven

theorem strchrOr_found (pre : Str) {b : UInt8} {front after : List UInt8} (hfront : b ∉ front)
    (hnul : (0 : UInt8) ∉ front) (stringEnd : ℕ) :
    strchrOr (pre ++ (front ++ b :: after)) pre.length b stringEnd =
      some (pre.length + front.length) := by
  rw [strchrOr, strchr_found after hfront hnul]
  rfl

theorem strchrOr_absent (pre : Str) {b : UInt8} (hne : b ≠ 0) (hrest : b ∉ rest)
    (hnul : (0 : UInt8) ∉ rest) (stringEnd : ℕ) :
    strchrOr (pre ++ (rest ++ [0])) pre.length b stringEnd = some stringEnd := by
  rw [strchrOr, strchr_absent [] hne hrest hnul]
  rfl

theorem split_cases (b : UInt8) (rest : Str) :
    b ∉ rest ∨ ∃ front back, rest = front ++ b :: back ∧ b ∉ front := by
  by_cases hmem : b ∈ rest
  · obtain ⟨front, back, hrest, hfront⟩ := List.eq_append_cons_of_mem hmem
    exact .inr ⟨front, back, hrest, hfront⟩
  · exact .inl hmem

end Scanning

section Loop

variable {pre rest mem : List UInt8} {stringEnd str literal comment rounds : ℕ} {cut : Bool}

theorem stripRound_quote (hliteral : strchrOr mem str quote stringEnd = some literal)
    (hcomment : strchrOr mem str hash stringEnd = some comment)
    (hbefore : cut = true → literal < comment) :
    stripRound stringEnd cut str mem = some (!cut, literal + 1, mem) := by
  rw [stripRound, hliteral, Option.bind_some, hcomment, Option.bind_some]
  cases cut with
  | true => rw [if_pos ⟨rfl, hbefore rfl⟩, Bool.not_true]
  | false =>
    rw [if_neg (fun h => Bool.false_ne_true h.1), if_pos rfl, Bool.not_false]

theorem stripRound_comment (hliteral : strchrOr mem str quote stringEnd = some literal)
    (hcomment : strchrOr mem str hash stringEnd = some comment) (hle : comment ≤ literal)
    (hin : comment < mem.length) :
    stripRound stringEnd true str mem = some (true, comment, mem.set comment 0) := by
  rw [stripRound, hliteral, Option.bind_some, hcomment, Option.bind_some,
    if_neg (fun h => absurd h.2 (Nat.not_lt.mpr hle)), if_neg Bool.noConfusion, poke_of_lt hin]
  rfl

theorem stripLoop_end (hend : mem[str]? = some 0) :
    stripLoop (rounds + 1) stringEnd cut str mem = some (some (mem, str)) := by
  rw [stripLoop, hend]
  exact if_pos rfl

theorem stripLoop_outside (hout : mem.length ≤ str) :
    stripLoop (rounds + 1) stringEnd cut str mem = some none := by
  rw [stripLoop, List.getElem?_eq_none hout]

theorem stripLoop_round {b : UInt8} {cut' : Bool} {str' : ℕ} {mem' : List UInt8}
    (hget : mem[str]? = some b) (hb : b ≠ 0)
    (hround : stripRound stringEnd cut str mem = some (cut', str', mem')) :
    stripLoop (rounds + 1) stringEnd cut str mem = stripLoop rounds stringEnd cut' str' mem' := by
  rw [stripLoop, hget]
  dsimp only
  rw [if_neg hb, hround]

theorem strchrOr_some (pre : Str) (stringEnd : ℕ) {b : UInt8} (hne : b ≠ 0)
    (hnul : (0 : UInt8) ∉ rest) :
    ∃ found, strchrOr (pre ++ (rest ++ [0])) pre.length b stringEnd = some found := by
  rcases split_cases b rest with habsent | ⟨front, back, rfl, hfront⟩
  · exact ⟨_, strchrOr_absent pre hne habsent hnul stringEnd⟩
  · rw [List.append_assoc]
    exact ⟨_, strchrOr_found pre hfront (fun h => hnul (List.mem_append_left _ h)) stringEnd⟩

theorem strchrOr_behind (pre : Str) {b : UInt8} {front back : Str} (hne : b ≠ 0)
    (hfront : b ∉ front) (hnul : (0 : UInt8) ∉ front ++ back) :
    ∃ found, strchrOr (pre ++ (front ++ back ++ [0])) pre.length b
        (pre ++ (front ++ back)).length = some found ∧ pre.length + front.length ≤ found := by
  rcases split_cases b back with habsent | ⟨mid, back, rfl, hmid⟩
  · have hall : b ∉ front ++ back := fun h => (List.mem_append.mp h).elim hfront habsent
    refine ⟨_, strchrOr_absent pre hne hall hnul _, ?_⟩
    simp only [List.length_append]
    omega
  · have hall : b ∉ front ++ mid := fun h => (List.mem_append.mp h).elim hfront hmid
    have hsplit : front ++ (mid ++ b :: back) ++ [0] = (front ++ mid) ++ b :: (back ++ [0]) := by
      simp only [List.append_assoc, List.cons_append]
    rw [← List.append_assoc, List.mem_append, not_or] at hnul
    rw [hsplit]
    refine ⟨_, strchrOr_found pre hall hnul.1 _, ?_⟩
    rw [List.length_append]
    omega

end Loop

section Runs

variable {pre rest : Str} {rounds : ℕ}

/-- What the loop comes to: the line stripped, or an access outside of it. -/
def Ended (text : Str) (out : Option (Option (List UInt8 × ℕ))) : Prop :=
  (∃ mem str, out = some (some (mem, str)) ∧ Stripped text mem str ∧ Settled text) ∨
    (out = some none ∧ ¬ Settled text)

theorem get_next (pre : Str) (c : UInt8) (cs : Str) :
    (pre ++ (c :: cs ++ [0]))[pre.length]? = some c := by
  rw [List.getElem?_append_right (le_refl _), Nat.sub_self]
  rfl

theorem get_terminator (text : Str) : (text ++ [0])[text.length]? = some 0 := by
  rw [List.getElem?_append_right (le_refl _), Nat.sub_self]
  rfl

theorem ended_whole {text : Str} {cut : Bool} (heven : cut = true → Even (text.count quote))
    (hquote : cut = false → text.getLast? = some quote) (hnone : ∀ j, ¬ Outside text j) :
    Ended text (stripLoop (rounds + 1) text.length cut text.length (text ++ [0])) := by
  refine .inl ⟨_, _, stripLoop_end (get_terminator text), .inr ⟨hnone, rfl, rfl⟩, .inr ?_⟩
  cases cut with
  | true => exact .inl (heven rfl)
  | false => exact .inr (hquote rfl)

theorem none_outside {text : Str} (h : ∀ j < text.length, ¬ Outside text j) :
    ∀ j, ¬ Outside text j := by
  intro j
  rcases Nat.lt_or_ge j text.length with hlt | hge
  · exact h j hlt
  · exact not_outside_end hge

/-- A `#` before the next quote ends the line. -/
theorem ended_comment {front back : Str} (hnul : (0 : UInt8) ∉ pre ++ (front ++ hash :: back))
    (heven : Even (pre.count quote)) (hquote : quote ∉ front) (hhash : hash ∉ front)
    (hpre : ∀ j < pre.length, ¬ Outside (pre ++ (front ++ hash :: back)) j) :
    Ended (pre ++ (front ++ hash :: back))
      (stripLoop (rounds + 2) (pre ++ (front ++ hash :: back)).length true pre.length
        (pre ++ (front ++ hash :: back ++ [0]))) := by
  have hmem : pre ++ (front ++ hash :: back ++ [0]) = pre ++ (front ++ hash :: (back ++ [0])) := by
    rw [List.append_assoc, List.cons_append]
  have hfront : (0 : UInt8) ∉ front := fun h =>
    hnul (List.mem_append_right _ (List.mem_append_left _ h))
  have hcomment : strchrOr (pre ++ (front ++ hash :: (back ++ [0]))) pre.length hash
      (pre ++ (front ++ hash :: back)).length = some (pre.length + front.length) :=
    strchrOr_found pre hhash hfront _
  have hfrontHash : quote ∉ front ++ [hash] := by
    rw [List.mem_append, not_or]
    exact ⟨hquote, by decide⟩
  have hrest : (0 : UInt8) ∉ front ++ [hash] ++ back := by
    rw [List.append_assoc]
    exact fun h => hnul (List.mem_append_right _ h)
  obtain ⟨literal, hliteral, hle⟩ := strchrOr_behind pre (by decide) hfrontHash hrest
  have hsplit : front ++ [hash] ++ back = front ++ hash :: back := by
    rw [List.append_assoc]
    rfl
  rw [hsplit] at hliteral
  rw [List.length_append, List.length_singleton] at hle
  rw [← hmem] at hcomment
  have hin : pre.length + front.length < (pre ++ (front ++ hash :: back ++ [0])).length := by
    simp only [List.length_append, List.length_cons]
    omega
  obtain ⟨c, cs, hcs⟩ : ∃ c cs, front ++ hash :: back = c :: cs := by
    cases front with
    | nil => exact ⟨_, _, rfl⟩
    | cons c cs => exact ⟨_, _, rfl⟩
  have hc : c ≠ 0 := by
    rintro rfl
    exact hnul (List.mem_append_right _ (hcs ▸ List.mem_cons_self))
  have hget : (pre ++ (front ++ hash :: back ++ [0]))[pre.length]? = some c := by
    rw [hcs]
    exact get_next pre c cs
  have hround := stripRound_comment hliteral hcomment (by omega) hin
  have houtside : Outside (pre ++ (front ++ hash :: back)) (pre.length + front.length) := by
    refine ⟨?_, ?_⟩
    · rw [List.getElem?_append_right (Nat.le_add_right _ _), Nat.add_sub_cancel_left,
        List.getElem?_append_right (le_refl _), Nat.sub_self]
      rfl
    · have hcount : front.count quote = 0 := List.count_eq_zero.mpr hquote
      rw [List.take_length_add_append, List.take_left, List.count_append, hcount, Nat.add_zero]
      exact heven
  refine .inl ⟨_, _, ?_, .inl ⟨houtside, ?_, rfl⟩, .inl ⟨_, houtside⟩⟩
  · rw [stripLoop_round hget hc hround, stripLoop_end (List.getElem?_set_self hin),
      List.append_assoc pre]
  · exact not_outside_before hpre hquote (.inl hhash)

theorem ended_unpaired {c : UInt8} {cs : Str} (hnul : (0 : UInt8) ∉ pre ++ c :: cs)
    (hodd : ¬ Even (pre.count quote)) (hquote : quote ∉ c :: cs)
    (hpre : ∀ j < pre.length, ¬ Outside (pre ++ c :: cs) j) :
    Ended (pre ++ c :: cs)
      (stripLoop (rounds + 2) (pre ++ c :: cs).length false pre.length
        (pre ++ (c :: cs ++ [0]))) := by
  have hrest : (0 : UInt8) ∉ c :: cs := fun h => hnul (List.mem_append_right _ h)
  have hc : c ≠ 0 := fun h => hrest (h ▸ List.mem_cons_self)
  have hliteral := strchrOr_absent pre (by decide) hquote hrest (pre ++ c :: cs).length
  obtain ⟨comment, hcomment⟩ := strchrOr_some pre (pre ++ c :: cs).length (b := hash) (by decide)
    hrest
  have hround : stripRound (pre ++ c :: cs).length false pre.length (pre ++ (c :: cs ++ [0])) =
      some (!false, (pre ++ c :: cs).length + 1, pre ++ (c :: cs ++ [0])) :=
    stripRound_quote hliteral hcomment fun h => nomatch h
  refine .inr ⟨?_, ?_⟩
  · rw [stripLoop_round (get_next pre c cs) hc hround]
    apply stripLoop_outside
    simp only [List.length_append, List.length_cons, List.length_nil]
    omega
  · rintro (⟨j, hj⟩ | heven | hlast)
    · rcases Nat.lt_or_ge j (pre.length + (c :: cs).length) with hlt | hge
      · have hsplit : pre ++ c :: cs = pre ++ (c :: cs ++ []) := by rw [List.append_nil]
        rw [hsplit] at hj hpre
        exact not_outside_before hpre hquote (.inr hodd) j hlt hj
      · exact not_outside_end (by rw [List.length_append]; exact hge) hj
    · have hcount : (c :: cs).count quote = 0 := List.count_eq_zero.mpr hquote
      rw [List.count_append, hcount, Nat.add_zero] at heven
      exact hodd heven
    · rw [List.getLast?_append_cons] at hlast
      exact hquote (List.mem_of_getLast? hlast)

theorem ended_uncut {c : UInt8} {cs : Str} (hnul : (0 : UInt8) ∉ pre ++ c :: cs)
    (heven : Even (pre.count quote)) (hquote : quote ∉ c :: cs) (hhash : hash ∉ c :: cs)
    (hpre : ∀ j < pre.length, ¬ Outside (pre ++ c :: cs) j) :
    Ended (pre ++ c :: cs)
      (stripLoop (rounds + 2) (pre ++ c :: cs).length true pre.length
        (pre ++ (c :: cs ++ [0]))) := by
  have hrest : (0 : UInt8) ∉ c :: cs := fun h => hnul (List.mem_append_right _ h)
  have hc : c ≠ 0 := fun h => hrest (h ▸ List.mem_cons_self)
  have hliteral := strchrOr_absent pre (by decide) hquote hrest (pre ++ c :: cs).length
  have hcomment := strchrOr_absent pre (by decide) hhash hrest (pre ++ c :: cs).length
  rw [← List.append_assoc] at hliteral hcomment ⊢
  have hin : (pre ++ c :: cs).length < (pre ++ c :: cs ++ [0]).length := by
    simp only [List.length_append, List.length_cons]
    omega
  have hround := stripRound_comment hliteral hcomment (le_refl _) hin
  have hset : (pre ++ c :: cs ++ [0]).set (pre ++ c :: cs).length 0 = pre ++ c :: cs ++ [0] := by
    rw [List.set_append_right _ _ (le_refl _), Nat.sub_self]
    rfl
  have hget : (pre ++ c :: cs ++ [0])[pre.length]? = some c := by
    rw [List.append_assoc]
    exact get_next pre c cs
  rw [stripLoop_round hget hc hround, hset]
  refine ended_whole (fun _ => ?_) (fun h => nomatch h) (none_outside ?_)
  · have hcount : (c :: cs).count quote = 0 := List.count_eq_zero.mpr hquote
    rw [List.count_append, hcount, Nat.add_zero]
    exact heven
  · have hsplit : pre ++ c :: cs = pre ++ (c :: cs ++ []) := by rw [List.append_nil]
    rw [hsplit] at hpre ⊢
    intro j hj
    rw [List.append_nil, List.length_append] at hj
    exact not_outside_before hpre hquote (.inl hhash) j hj

theorem even_snoc_quote (text : Str) :
    Even ((text ++ [quote]).count quote) ↔ ¬ Even (text.count quote) := by
  rw [List.count_append, List.count_singleton_self, Nat.even_add_one]

/-- Behind a quote the loop goes on in the other mode. -/
theorem ended_quote {cut : Bool} {c : UInt8} {front back : Str}
    (hnul : (0 : UInt8) ∉ pre ++ (front ++ quote :: back))
    (hcut : cut = true ↔ Even (pre.count quote)) (hfront : quote ∉ front) (hc : c ≠ 0)
    (hget : (pre ++ (front ++ quote :: back ++ [0]))[pre.length]? = some c)
    (hhash : hash ∉ front ∨ cut = false)
    (hpre : ∀ j < pre.length, ¬ Outside (pre ++ (front ++ quote :: back)) j)
    (hgoes : let before := pre ++ (front ++ [quote])
      ((!cut) = true ↔ Even (before.count quote)) →
        ((!cut) = false → before.getLast? = some quote) →
          (∀ j < before.length, ¬ Outside (before ++ back) j) →
            (0 : UInt8) ∉ before ++ back →
              Ended (before ++ back) (stripLoop rounds (before ++ back).length (!cut) before.length
                (before ++ (back ++ [0])))) :
    Ended (pre ++ (front ++ quote :: back))
      (stripLoop (rounds + 1) (pre ++ (front ++ quote :: back)).length cut pre.length
        (pre ++ (front ++ quote :: back ++ [0]))) := by
  have hjoin : pre ++ (front ++ quote :: back) = pre ++ (front ++ [quote]) ++ back := by
    simp only [List.append_assoc, List.singleton_append]
  have hmem : pre ++ (front ++ quote :: back ++ [0]) =
      pre ++ (front ++ [quote]) ++ (back ++ [0]) := by
    simp only [List.append_assoc, List.cons_append, List.nil_append]
  have hlength : (pre ++ (front ++ [quote])).length = pre.length + front.length + 1 := by
    simp only [List.length_append, List.length_singleton, Nat.add_assoc]
  have hnulFront : (0 : UInt8) ∉ front := fun h =>
    hnul (List.mem_append_right _ (List.mem_append_left _ h))
  have hliteral : strchrOr (pre ++ (front ++ quote :: back ++ [0])) pre.length quote
      (pre ++ (front ++ quote :: back)).length = some (pre.length + front.length) := by
    rw [List.append_assoc front, List.cons_append]
    exact strchrOr_found pre hfront hnulFront _
  obtain ⟨comment, hcomment, hbefore⟩ : ∃ comment,
      strchrOr (pre ++ (front ++ quote :: back ++ [0])) pre.length hash
        (pre ++ (front ++ quote :: back)).length = some comment ∧
      (cut = true → pre.length + front.length < comment) := by
    rcases hhash with hnone | hfalse
    · have hfrontQuote : hash ∉ front ++ [quote] := by
        rw [List.mem_append, not_or]
        exact ⟨hnone, by decide⟩
      have hsplit : front ++ [quote] ++ back = front ++ quote :: back := by
        rw [List.append_assoc]
        rfl
      have hrest : (0 : UInt8) ∉ front ++ [quote] ++ back := by
        rw [hsplit]
        exact fun h => hnul (List.mem_append_right _ h)
      obtain ⟨comment, hcomment, hle⟩ := strchrOr_behind pre (by decide) hfrontQuote hrest
      rw [hsplit] at hcomment
      rw [List.length_append, List.length_singleton] at hle
      exact ⟨comment, hcomment, fun _ => by omega⟩
    · obtain ⟨comment, hcomment⟩ := strchrOr_some pre (pre ++ (front ++ quote :: back)).length
        (b := hash) (by decide) fun h => hnul (List.mem_append_right _ h)
      exact ⟨comment, hcomment, fun h => absurd (h.symm.trans hfalse) Bool.noConfusion⟩
  rw [stripLoop_round hget hc (stripRound_quote hliteral hcomment hbefore), hjoin, hmem, ← hlength]
  apply hgoes
  · have hcount : front.count quote = 0 := List.count_eq_zero.mpr hfront
    rw [← List.append_assoc, even_snoc_quote, List.count_append, hcount, Nat.add_zero, ← hcut]
    cases cut <;> simp
  · intro _
    rw [← List.append_assoc, List.getLast?_append_cons]
    rfl
  · intro j hj
    rw [hlength] at hj
    rw [← hjoin]
    rcases Nat.lt_or_ge j (pre.length + front.length) with hlt | hge
    · apply not_outside_before hpre hfront _ j hlt
      rcases hhash with hnone | rfl
      · exact .inl hnone
      · exact .inr fun heven => nomatch hcut.mpr heven
    · obtain rfl : j = pre.length + front.length := by omega
      exact not_outside_quote
  · rw [← hjoin]
    exact hnul

/-- The quotes passed are paired exactly when comments are cut, and a quote has just been passed
when they are not. -/
theorem stripLoop_ended {cut : Bool} (hnul : (0 : UInt8) ∉ pre ++ rest)
    (hrounds : rest.length + 2 ≤ rounds) (hcut : cut = true ↔ Even (pre.count quote))
    (hquote : cut = false → pre.getLast? = some quote)
    (hpre : ∀ j < pre.length, ¬ Outside (pre ++ rest) j) :
    Ended (pre ++ rest)
      (stripLoop rounds (pre ++ rest).length cut pre.length (pre ++ (rest ++ [0]))) := by
  induction rounds generalizing pre rest cut with
  | zero => omega
  | succ rounds ih =>
    obtain ⟨rounds, rfl⟩ : ∃ r, rounds = r + 1 := ⟨rounds - 1, by omega⟩
    cases rest with
    | nil =>
      rw [List.append_nil] at hpre ⊢
      exact ended_whole hcut.mp hquote (none_outside hpre)
    | cons c cs =>
      have hrest : (0 : UInt8) ∉ c :: cs := fun h => hnul (List.mem_append_right _ h)
      have hc : c ≠ 0 := fun h => hrest (h ▸ List.mem_cons_self)
      rcases split_cases quote (c :: cs) with habsent | ⟨front, back, hsplit, hfront⟩
      · cases cut with
        | false => exact ended_unpaired hnul (fun h => nomatch hcut.mpr h) habsent hpre
        | true =>
          rcases split_cases hash (c :: cs) with hnone | ⟨front, back, hsplit, hhash⟩
          · exact ended_uncut hnul (hcut.mp rfl) habsent hnone hpre
          · rw [hsplit] at hnul hpre habsent ⊢
            exact ended_comment hnul (hcut.mp rfl)
              (fun h => habsent (List.mem_append_left _ h)) hhash hpre
      · rw [hsplit] at hnul hpre ⊢
        have hget : (pre ++ (front ++ quote :: back ++ [0]))[pre.length]? = some c := by
          rw [← hsplit]
          exact get_next pre c cs
        have hback : back.length + 2 ≤ rounds + 1 := by
          have hlength := congrArg List.length hsplit
          simp only [List.length_append, List.length_cons] at hlength hrounds
          omega
        cases cut with
        | true =>
          rcases split_cases hash front with hnone | ⟨first, last, rfl, hhash⟩
          · exact ended_quote hnul hcut hfront hc hget (.inl hnone) hpre
              fun hcut' hquote' hpre' hnul' => ih hnul' hback hcut' hquote' hpre'
          · rw [List.append_assoc, List.cons_append] at hnul hpre ⊢
            exact ended_comment hnul (hcut.mp rfl)
              (fun h => hfront (List.mem_append_left _ h)) hhash hpre
        | false =>
          exact ended_quote hnul hcut hfront hc hget (.inr rfl) hpre
            fun hcut' hquote' hpre' hnul' => ih hnul' hback hcut' hquote' hpre'

end Runs

theorem stripCommentIn_ended (line : Line) {rounds : ℕ} (hrounds : line.text.length + 2 ≤ rounds) :
    Ended line.text (stripCommentIn rounds line.block) := by
  have hlength : strlen line.block 0 = some line.text.length :=
    strlen_string [] line.unterminated
  rw [stripCommentIn, hlength]
  apply @stripLoop_ended [] _ _ _ line.unterminated hrounds
  · simp
  · intro h
    cases h
  · intro j hj
    exact absurd hj (Nat.not_lt_zero j)

theorem stripLoop_mono {rounds stringEnd str : ℕ} {cut : Bool} {mem : List UInt8}
    {out : Option (List UInt8 × ℕ)} (h : stripLoop rounds stringEnd cut str mem = some out)
    {more : ℕ} (hmore : rounds ≤ more) : stripLoop more stringEnd cut str mem = some out := by
  induction rounds generalizing more cut str mem with
  | zero => cases h
  | succ rounds ih =>
    obtain ⟨more, rfl⟩ : ∃ m, more = m + 1 := ⟨more - 1, by omega⟩
    unfold stripLoop at h ⊢
    cases hget : mem[str]? with
    | none =>
      rw [hget] at h
      exact h
    | some b =>
      rw [hget] at h
      dsimp only at h ⊢
      split_ifs at h ⊢ with hb
      · exact h
      · cases hround : stripRound stringEnd cut str mem with
        | none =>
          rw [hround] at h
          exact h
        | some next =>
          rw [hround] at h
          exact ih h (Nat.le_of_succ_le_succ hmore)

theorem stripCommentIn_mono {rounds more : ℕ} {mem : List UInt8}
    {out : Option (List UInt8 × ℕ)} (h : stripCommentIn rounds mem = some out)
    (hmore : rounds ≤ more) : stripCommentIn more mem = some out := by
  unfold stripCommentIn at h ⊢
  cases hlength : strlen mem 0 with
  | none =>
    rw [hlength] at h
    exact h
  | some stringEnd =>
    rw [hlength] at h
    exact stripLoop_mono h hmore

/-- The comment of a line is stripped inside of the line exactly when no unpaired quote has
characters behind it. -/
theorem strips_inside_iff (line : Line) : StripsInside line ↔ Settled line.text := by
  constructor
  · rintro ⟨rounds, mem, str, hrun, -⟩
    have hmore := stripCommentIn_mono hrun (Nat.le_add_right rounds (line.text.length + 2))
    rcases stripCommentIn_ended line (Nat.le_add_left (line.text.length + 2) rounds) with
      ⟨_, _, _, _, hsettled⟩ | ⟨hout, _⟩
    · exact hsettled
    · rw [hmore] at hout
      cases hout
  · intro hsettled
    rcases stripCommentIn_ended line (le_refl _) with ⟨mem, str, hrun, hstripped, _⟩ | ⟨_, hnot⟩
    · exact ⟨_, mem, str, hrun, hstripped⟩
    · exact absurd hsettled hnot

/-- A quote and a letter. -/
def unpairedLine : Line := ⟨[34, 97], by decide⟩

theorem unpaired_read_past : ¬ StripsInside unpairedLine := by
  rintro ⟨rounds, mem, str, hrun, -⟩
  have hmore := stripCommentIn_mono hrun (Nat.le_add_right rounds 4)
  have hpast : stripCommentIn 4 unpairedLine.block = some none := by decide
  have hout := stripCommentIn_mono hpast (Nat.le_add_left 4 rounds)
  rw [hmore] at hout
  cases hout

end RetroArch.File.Comment
