/- The removal of comments from an XML text, before it is parsed. -/

import RetroArch.Library.Substring

namespace RetroArch.Formats.Rxml

open Library.Substring

abbrev Str := List UInt8

/-- `<!--` -/
def opening : Str := [60, 33, 45, 45]

/-- `-->` -/
def closing : Str := [45, 45, 62]

theorem drop_length_lt {text found : Str} (h : strstr text closing = some found) :
    (found.drop closing.length).length < text.length := by
  have hsuffix := (strstr_suffix h).length_le
  have hbegins := (begins_strstr h).length_le
  have hclosing : closing.length = 3 := rfl
  rw [List.length_drop]
  omega

/-- The calls of `memcpy`: where the source starts, and how many bytes are copied. Each goes on in
the copy where the one before it ended. -/
def copies (copySrc : Str) : List (Str × ℕ) :=
  match strstr copySrc opening with
  | none => [(copySrc, copySrc.length)]
  | some commentStart =>
    match _h : strstr copySrc closing with
    | none => [(copySrc, copySrc.length)]
    | some commentEnd =>
      (copySrc, copySrc.length - commentStart.length) ::
        copies (commentEnd.drop closing.length)
termination_by copySrc.length
decreasing_by exact drop_length_lt _h

def purgeXmlComments (str : Str) : Str := (copies str).flatMap fun copy => copy.1.take copy.2

/-- The bytes that are written, the terminator among them. -/
def written (str : Str) : ℕ := ((copies str).map Prod.snd).sum + 1

/-- The places of the bytes that are copied, in their order. -/
def copied (str : Str) : List Str := (copies str).flatMap fun copy => places copy.1 copy.2

/-- The places that lie in no comment, in their order. -/
def kept (str : Str) : List Str :=
  match _hstart : strstr str opening with
  | none => places str str.length
  | some commentStart =>
    match _h : strstr (commentStart.drop opening.length) closing with
    | none => places str str.length
    | some commentEnd =>
      places str (str.length - commentStart.length) ++ kept (commentEnd.drop closing.length)
termination_by str.length
decreasing_by
  have hend := drop_length_lt _h
  have hsuffix := (strstr_suffix _hstart).length_le
  rw [@List.length_drop _ opening.length] at hend
  omega

/-- What is not in a comment is kept, once and in its order, and nothing is written behind the
copy. -/
structure Purged (str : Str) : Prop where
  fits : written str ≤ str.length + 1
  text : purgeXmlComments str = elements (kept str)
  once : copied str = kept str

/-- Where the marks of comments lie, as far as the searches reach. -/
inductive Tidy : Str → Prop
  | unopened {str : Str} : strstr str opening = none → Tidy str
  | unclosed {str : Str} : strstr str closing = none → Tidy str
  | comment {str commentStart commentEnd : Str} :
      strstr str opening = some commentStart → strstr str closing = some commentEnd →
      commentEnd.length + opening.length ≤ commentStart.length →
      Tidy (commentEnd.drop closing.length) → Tidy str
  /-- A closing mark with an opening mark right behind it. -/
  | closed {str commentStart commentEnd : Str} :
      strstr str opening = some commentStart → strstr str closing = some commentEnd →
      commentEnd.drop closing.length = commentStart → Tidy commentStart → Tidy str
  /-- A closing mark in the opening one, another opening mark right behind it, and a closing mark
  later. -/
  | reopened {str commentStart commentEnd last : Str} :
      strstr str opening = some commentStart → strstr str closing = some commentEnd →
      commentEnd.length < commentStart.length →
      commentStart.length < commentEnd.length + opening.length →
      opening <+: commentEnd.drop closing.length →
      strstr (commentEnd.drop closing.length) closing = some last →
      Tidy (last.drop closing.length) → Tidy str

section Marks

variable {str commentStart commentEnd : Str}

theorem closing_before (h : strstr str opening = some commentStart)
    (h' : strstr str closing = some commentEnd) (hlt : commentStart.length < commentEnd.length) :
    commentStart <:+ commentEnd.drop closing.length := by
  have hsuffix : commentStart <:+ commentEnd :=
    List.suffix_of_suffix_length_le (strstr_suffix h) (strstr_suffix h') (Nat.le_of_lt hlt)
  obtain ⟨rest, rfl⟩ := begins_strstr h'
  obtain ⟨rest', rfl⟩ := begins_strstr h
  rw [List.drop_left]
  simp only [opening, closing, List.cons_append, List.nil_append, List.suffix_cons_iff] at hsuffix
  rcases hsuffix with heq | heq | heq | hrest
  · exact absurd (List.cons.inj heq).1 (by decide)
  · exact absurd (List.cons.inj heq).1 (by decide)
  · exact absurd (List.cons.inj heq).1 (by decide)
  · exact hrest

/-- Behind a closing mark in the opening one, the search for the next closing mark starts over. -/
theorem closing_inside (h : strstr str opening = some commentStart)
    (h' : strstr str closing = some commentEnd) (hlt : commentEnd.length < commentStart.length)
    (hgt : commentStart.length < commentEnd.length + opening.length) :
    strstr (commentStart.drop opening.length) closing =
      strstr (commentEnd.drop closing.length) closing := by
  have hsuffix : commentEnd <:+ commentStart :=
    List.suffix_of_suffix_length_le (strstr_suffix h') (strstr_suffix h) (Nat.le_of_lt hlt)
  obtain ⟨rest, rfl⟩ := begins_strstr h'
  obtain ⟨rest', rfl⟩ := begins_strstr h
  rw [List.drop_left, List.drop_left]
  simp only [opening, closing, List.cons_append, List.nil_append, List.suffix_cons_iff,
    List.length_cons, List.length_nil] at hsuffix hlt hgt
  rcases hsuffix with heq | heq | heq | heq | hrest
  · exact absurd (List.cons.inj heq).1 (by decide)
  · exact absurd (List.cons.inj heq).1 (by decide)
  · obtain rfl : (62 : UInt8) :: rest = rest' := by simpa using heq
    exact strstr_cons_of_not (by simp [closing, List.cons_prefix_cons])
  · obtain rfl : (45 : UInt8) :: 62 :: rest = rest' := by simpa using heq
    rw [strstr_cons_of_not (by simp [closing, List.cons_prefix_cons]),
      strstr_cons_of_not (by simp [closing, List.cons_prefix_cons])]
  · have hle := hrest.length_le
    rw [List.length_cons, List.length_cons, List.length_cons] at hle
    omega

end Marks

section Unfolding

variable {str commentStart commentEnd place : Str}

theorem copied_unopened (h : strstr str opening = none) : copied str = places str str.length := by
  rw [copied, copies, h]
  exact List.append_nil _

theorem copied_unclosed (h : strstr str closing = none) : copied str = places str str.length := by
  cases hstart : strstr str opening with
  | none => exact copied_unopened hstart
  | some commentStart =>
    rw [copied, copies]
    simp only [hstart]
    split
    · exact List.append_nil _
    · rename_i hend
      rw [h] at hend
      exact nomatch hend

theorem copied_between (h : strstr str opening = some commentStart)
    (h' : strstr str closing = some commentEnd) :
    copied str = places str (str.length - commentStart.length) ++
      copied (commentEnd.drop closing.length) := by
  rw [copied, copies]
  simp only [h]
  split
  · rename_i hend
    rw [h'] at hend
    exact nomatch hend
  · rename_i hend
    obtain rfl := Option.some.inj (h'.symm.trans hend)
    rfl

theorem kept_unopened (h : strstr str opening = none) : kept str = places str str.length := by
  rw [kept]
  split
  · rfl
  · rename_i hstart
    rw [h] at hstart
    exact nomatch hstart

theorem kept_unclosed (h : strstr str opening = some commentStart)
    (h' : strstr (commentStart.drop opening.length) closing = none) :
    kept str = places str str.length := by
  rw [kept]
  split
  · rfl
  · rename_i hstart
    obtain rfl := Option.some.inj (h.symm.trans hstart)
    split
    · rfl
    · rename_i hend
      rw [h'] at hend
      exact nomatch hend

theorem kept_comment (h : strstr str opening = some commentStart)
    (h' : strstr (commentStart.drop opening.length) closing = some commentEnd) :
    kept str = places str (str.length - commentStart.length) ++
      kept (commentEnd.drop closing.length) := by
  rw [kept]
  split
  · rename_i hstart
    rw [h] at hstart
    exact nomatch hstart
  · rename_i hstart
    obtain rfl := Option.some.inj (h.symm.trans hstart)
    split
    · rename_i hend
      rw [h'] at hend
      exact nomatch hend
    · rename_i hend
      obtain rfl := Option.some.inj (h'.symm.trans hend)
      rfl

end Unfolding

section Copying

variable {str place : Str}

theorem copies_inside (str : Str) : ∀ copy ∈ copies str, copy.2 ≤ copy.1.length := by
  fun_induction copies str with
  | case1 copySrc hstart => simp
  | case2 copySrc commentStart hstart hend => simp
  | case3 copySrc commentStart hstart commentEnd hend ih =>
    intro copy hcopy
    rcases List.mem_cons.mp hcopy with rfl | hrest
    · exact Nat.sub_le _ _
    · exact ih copy hrest

theorem purge_eq (str : Str) : purgeXmlComments str = elements (copied str) := by
  have hall := copies_inside str
  rw [purgeXmlComments, copied]
  generalize copies str = calls at hall ⊢
  induction calls with
  | nil => rfl
  | cons copy rest ih =>
    rw [List.flatMap_cons, List.flatMap_cons, elements_append,
      elements_places _ (hall copy List.mem_cons_self),
      ih fun c hc => hall c (List.mem_cons_of_mem copy hc)]

theorem written_eq (str : Str) : written str = (purgeXmlComments str).length + 1 := by
  have hall := copies_inside str
  rw [written, purgeXmlComments]
  generalize copies str = calls at hall ⊢
  induction calls with
  | nil => rfl
  | cons copy rest ih =>
    have hlen : (copy.1.take copy.2).length = copy.2 := by
      rw [List.length_take]
      exact Nat.min_eq_left (hall copy List.mem_cons_self)
    have hrest := ih fun c hc => hall c (List.mem_cons_of_mem copy hc)
    rw [List.flatMap_cons, List.length_append, hlen, List.map_cons, List.sum_cons]
    omega

theorem kept_length_le (str : Str) : (elements (kept str)).length ≤ str.length := by
  fun_induction kept str with
  | case1 str hstart => rw [elements_places str (Nat.le_refl _), List.take_length]
  | case2 str commentStart hstart hend =>
    rw [elements_places str (Nat.le_refl _), List.take_length]
  | case3 str commentStart hstart commentEnd hend ih =>
    have hlt := drop_length_lt hend
    have hle := (strstr_suffix hstart).length_le
    rw [@List.length_drop _ opening.length] at hlt
    rw [elements_append, List.length_append, elements_places str (Nat.sub_le _ _),
      List.length_take]
    omega

theorem suffix_of_copied (h : place ∈ copied str) : place <:+ str := by
  rw [copied] at h
  obtain ⟨copy, hcopy, hplace⟩ := List.mem_flatMap.mp h
  refine (mem_places hplace).trans ?_
  clear hplace h
  revert copy
  fun_induction copies str with
  | case1 copySrc hstart => simp
  | case2 copySrc commentStart hstart hend => simp
  | case3 copySrc commentStart hstart commentEnd hend ih =>
    intro copy hcopy
    rcases List.mem_cons.mp hcopy with rfl | hrest
    · exact List.suffix_refl _
    · exact ((ih copy hrest).trans (List.drop_suffix _ _)).trans (strstr_suffix hend)

theorem suffix_of_kept (h : place ∈ kept str) : place <:+ str := by
  fun_induction kept str with
  | case1 str hstart => exact mem_places h
  | case2 str commentStart hstart hend => exact mem_places h
  | case3 str commentStart hstart commentEnd hend ih =>
    rcases List.mem_append.mp h with hfront | hrest
    · exact mem_places hfront
    · have hplace := (ih hrest).trans (List.drop_suffix _ _)
      exact ((hplace.trans (strstr_suffix hend)).trans (List.drop_suffix _ _)).trans
        (strstr_suffix hstart)

theorem head_copied (hne : str ≠ []) (h : opening <+: str → strstr str closing = none) :
    (copied str).head? = some str := by
  have hpos : 0 < str.length := List.length_pos_iff.mpr hne
  cases hend : strstr str closing with
  | none => rw [copied_unclosed hend, head_places hne hpos]
  | some commentEnd =>
    cases hstart : strstr str opening with
    | none => rw [copied_unopened hstart, head_places hne hpos]
    | some commentStart =>
      have hlt : commentStart.length < str.length := by
        apply Nat.lt_of_le_of_ne (strstr_suffix hstart).length_le
        intro hlen
        have heq := (strstr_suffix hstart).eq_of_length hlen
        have hnone := h (heq ▸ begins_strstr hstart)
        exact nomatch hend.symm.trans hnone
      rw [copied_between hstart hend, List.head?_append_of_ne_nil, head_places hne (by omega)]
      intro hnil
      have hhead := @head_places _ str (str.length - commentStart.length) hne (by omega)
      rw [hnil] at hhead
      exact nomatch hhead

end Copying

section Purging

variable {str commentStart commentEnd : Str}

theorem kept_again (h : strstr str opening = some commentStart) :
    kept str = places str (str.length - commentStart.length) ++ kept commentStart := by
  cases hlast : strstr (commentStart.drop opening.length) closing with
  | none =>
    rw [kept_unclosed h hlast, kept_unclosed (strstr_eq_self h) hlast]
    exact places_suffix (strstr_suffix h)
  | some last =>
    rw [kept_comment h hlast, kept_comment (strstr_eq_self h) hlast, Nat.sub_self, places_zero,
      List.nil_append]

theorem copied_of_tidy (h : Tidy str) : copied str = kept str := by
  induction h with
  | unopened hstart => rw [copied_unopened hstart, kept_unopened hstart]
  | @unclosed str hend =>
    rw [copied_unclosed hend]
    cases hstart : strstr str opening with
    | none => rw [kept_unopened hstart]
    | some commentStart =>
      have hrest := (List.drop_suffix opening.length _).trans (strstr_suffix hstart)
      rw [kept_unclosed hstart (strstr_none_of_suffix hend hrest)]
  | comment hstart hend hle _ ih =>
    have hrest := (List.drop_suffix opening.length _).trans (strstr_suffix hstart)
    have hend' := strstr_of_suffix hend hrest (by rw [List.length_drop]; omega)
    rw [copied_between hstart hend, kept_comment hstart hend', ih]
  | closed hstart hend heq _ ih => rw [copied_between hstart hend, heq, ih, kept_again hstart]
  | reopened hstart hend hlt hgt hagain hlast _ ih =>
    have hlast' := (closing_inside hstart hend hlt hgt).trans hlast
    rw [copied_between hstart hend, copied_between (strstr_begins hagain) hlast,
      kept_comment hstart hlast', Nat.sub_self, places_zero, List.nil_append, ih]

theorem closed_of_copied (hstart : strstr str opening = some commentStart)
    (hend : strstr str closing = some commentEnd) (hlt : commentStart.length < commentEnd.length)
    (h : copied str = kept str) : commentEnd.drop closing.length = commentStart := by
  rw [copied_between hstart hend, kept_again hstart] at h
  have htail := List.append_cancel_left h
  have hsuffix := closing_before hstart hend hlt
  have hstr := (List.drop_suffix closing.length commentEnd).trans (strstr_suffix hend)
  have hfirst := strstr_of_suffix hstart hstr hsuffix.length_le
  by_contra hne
  have hopen : ¬opening <+: commentEnd.drop closing.length := by
    intro hbegins
    exact hne (Option.some.inj ((strstr_begins hbegins).symm.trans hfirst))
  have hnil : commentEnd.drop closing.length ≠ [] := by
    intro heq
    rw [heq] at hsuffix
    have hmark := (begins_strstr hstart).length_le
    rw [List.suffix_nil.mp hsuffix] at hmark
    exact absurd hmark (by decide)
  have hhead := head_copied hnil fun hbegins => absurd hbegins hopen
  rw [htail] at hhead
  have hback := suffix_of_kept (List.mem_of_mem_head? hhead)
  exact hne (hback.eq_of_length_le hsuffix.length_le)

/-- Behind a closing mark in the opening one, nothing is to be copied before the comment ends. -/
theorem reopened_of_copied (hstart : strstr str opening = some commentStart)
    (hend : strstr str closing = some commentEnd) (hlt : commentEnd.length < commentStart.length)
    (hgt : commentStart.length < commentEnd.length + opening.length) (h : copied str = kept str) :
    ∃ last, opening <+: commentEnd.drop closing.length ∧
      strstr (commentEnd.drop closing.length) closing = some last ∧
        copied (last.drop closing.length) = kept (last.drop closing.length) := by
  have hinside := closing_inside hstart hend hlt hgt
  rw [copied_between hstart hend] at h
  cases hlast : strstr (commentEnd.drop closing.length) closing with
  | none =>
    rw [hlast] at hinside
    rw [kept_unclosed hstart hinside, places_suffix (strstr_suffix hstart)] at h
    have htail := List.append_cancel_left h
    have hne : commentStart ≠ [] := List.ne_nil_of_length_pos (by omega)
    have hhead := head_places hne (List.length_pos_iff.mpr hne)
    rw [← htail] at hhead
    have hback := (suffix_of_copied (List.mem_of_mem_head? hhead)).length_le
    rw [List.length_drop] at hback
    omega
  | some last =>
    rw [hlast] at hinside
    rw [kept_comment hstart hinside] at h
    have htail := List.append_cancel_left h
    have hshort := drop_length_lt hlast
    by_cases hopen : opening <+: commentEnd.drop closing.length
    · refine ⟨last, hopen, rfl, ?_⟩
      rw [copied_between (strstr_begins hopen) hlast, Nat.sub_self, places_zero] at htail
      exact htail
    · have hne : commentEnd.drop closing.length ≠ [] := List.ne_nil_of_length_pos (by omega)
      have hhead := head_copied hne fun hbegins => absurd hbegins hopen
      rw [htail] at hhead
      have hback := (suffix_of_kept (List.mem_of_mem_head? hhead)).length_le
      omega

theorem tidy_of_copied (h : copied str = kept str) : Tidy str := by
  induction hn : str.length using Nat.strong_induction_on generalizing str with
  | h n ih =>
  subst hn
  cases hstart : strstr str opening with
  | none => exact .unopened hstart
  | some commentStart =>
  cases hend : strstr str closing with
  | none => exact .unclosed hend
  | some commentEnd =>
  have hclosing : closing.length = 3 := rfl
  have hopening : opening.length = 4 := rfl
  have hshort := drop_length_lt hend
  by_cases hbehind : commentEnd.length + opening.length ≤ commentStart.length
  · have hrest := (List.drop_suffix opening.length commentStart).trans (strstr_suffix hstart)
    have hend' := strstr_of_suffix hend hrest (by rw [List.length_drop]; omega)
    rw [copied_between hstart hend, kept_comment hstart hend'] at h
    exact .comment hstart hend hbehind (ih _ hshort (List.append_cancel_left h) rfl)
  rcases Nat.lt_trichotomy commentEnd.length commentStart.length with hinside | heq | hbefore
  · have hgt := Nat.lt_of_not_le hbehind
    obtain ⟨last, hagain, hlast, htail⟩ := reopened_of_copied hstart hend hinside hgt h
    have hlt := (drop_length_lt hlast).trans hshort
    exact .reopened hstart hend hinside hgt hagain hlast (ih _ hlt htail rfl)
  · -- one place is not the first of both marks
    have hsame : commentEnd = commentStart := (List.suffix_of_suffix_length_le
      (strstr_suffix hend) (strstr_suffix hstart) (Nat.le_of_eq heq)).eq_of_length heq
    obtain ⟨front, hfront⟩ := begins_strstr hstart
    obtain ⟨front', hfront'⟩ := begins_strstr hend
    rw [hsame, ← hfront] at hfront'
    exact absurd (List.cons.inj hfront').1 (by decide)
  · have hclosed := closed_of_copied hstart hend hbefore h
    refine .closed hstart hend hclosed ?_
    rw [copied_between hstart hend, hclosed] at h
    rw [hclosed] at hshort
    rw [kept_again hstart] at h
    exact ih _ hshort (List.append_cancel_left h) rfl

/-- The comments are removed, and all else is kept once, exactly from texts with tidy marks. -/
theorem purged_iff (str : Str) : Purged str ↔ Tidy str := by
  constructor
  · intro h
    exact tidy_of_copied h.once
  · intro h
    have honce := copied_of_tidy h
    have htext : purgeXmlComments str = elements (kept str) := by rw [purge_eq, honce]
    refine ⟨?_, htext, honce⟩
    rw [written_eq, htext]
    exact Nat.succ_le_succ (kept_length_le str)

/-- Of `-->x<!--`, ten bytes are written into a copy of nine. -/
theorem stray_closing_overruns : ¬∀ str : Str, Purged str := by
  intro h
  have hfits := (h [45, 45, 62, 120, 60, 33, 45, 45]).fits
  have hfirst := @copied_between [45, 45, 62, 120, 60, 33, 45, 45] _ _ rfl rfl
  have hlast : copied [120, 60, 33, 45, 45] = places [120, 60, 33, 45, 45] 5 :=
    copied_unclosed rfl
  change _ = _ ++ copied [120, 60, 33, 45, 45] at hfirst
  rw [hlast] at hfirst
  rw [written_eq, purge_eq, hfirst] at hfits
  exact absurd hfits (by decide)

end Purging

end RetroArch.Formats.Rxml
