import Highlight.Proofs.Rules.TokenTexts
import Mathlib.Tactic.IntervalCases

/-!
The light scan of a text whose references have moved. What a token asks of the text behind it stays true when the
references there move, so that the scan finds the same tokens again, each after its move. Hence moves add up, a move
by nothing changes nothing, and none of them opens or closes a group.
-/
namespace Highlight.Rules

open Regex

variable {cs ds rest tail : List Char} {c d : Char} {t : Token} {a n o : Nat}

section Digits

lemma toDigits_digit (hd : d.isDigit = true) :
    Nat.toDigits 10 (d.toNat - '0'.toNat) = [d] ∧ d.toNat - '0'.toNat < 10 := by
  simp only [Char.isDigit,Bool.and_eq_true,decide_eq_true_eq,ge_iff_le,UInt32.le_iff_toNat_le] at hd
  obtain ⟨hlow,hhigh⟩ := hd
  have hd : d = Char.ofNat d.toNat := (Char.ofNat_toNat d).symm
  have hlow : 48 ≤ d.toNat := hlow
  have hhigh : d.toNat ≤ 57 := hhigh
  generalize d.toNat = k at hd hlow hhigh
  subst hd
  interval_cases k <;> exact ⟨rfl,by decide⟩

/-- Digits after a number that is not zero are the last ones of what they write together. -/
lemma toDigits_ofDigitChars (hn : 0 < n) (hds : ∀ d ∈ ds, d.isDigit = true) :
    Nat.toDigits 10 (Nat.ofDigitChars 10 ds n) = Nat.toDigits 10 n ++ ds := by
  induction ds generalizing n with
  | nil => rw [Nat.ofDigitChars_nil,List.append_nil]
  | cons d ds ih =>
    obtain ⟨hd,hlt⟩ := toDigits_digit (hds d List.mem_cons_self)
    have hpos : 0 < 10 * n + (d.toNat - '0'.toNat) := by omega
    rw [Nat.ofDigitChars_cons,ih hpos (fun d hd => hds d (List.mem_cons_of_mem _ hd)),
      ← Nat.toDigits_append_toDigits (by decide) hn hlt,hd,List.append_assoc]
    rfl

/-- A number is written without leading zeros, and so are the digits of a reference. -/
lemma IsReference.toString_value (h : IsReference ds) : (toString (digitsValue ds)).toList = ds := by
  obtain ⟨e,es,rfl,he,hes⟩ := h.exists_cons
  obtain ⟨hfirst,-⟩ := toDigits_digit (h.2 e List.mem_cons_self)
  have hpos : 0 < e.toNat - '0'.toNat := by
    refine Nat.pos_of_ne_zero fun hnone => ?_
    rw [hnone] at hfirst
    obtain rfl : '0' = e := by simpa using hfirst
    cases he
  have hvalue : digitsValue (e :: es) = Nat.ofDigitChars 10 es (10 * 0 + (e.toNat - '0'.toNat)) := rfl
  have hlist : (toString (digitsValue (e :: es))).toList = Nat.toDigits 10 (digitsValue (e :: es)) := Nat.toList_repr
  rw [hlist,hvalue,Nat.mul_zero,Nat.zero_add,toDigits_ofDigitChars hpos hes,hfirst]
  rfl

/-- What is written of a number that is not zero may stand in a reference. -/
lemma isReference_toString (hn : n ≠ 0) : IsReference (toString n).toList := by
  refine ⟨?_,fun d hd => isDigit_toString hd⟩
  have hlist : (toString n).toList = Nat.toDigits 10 n := Nat.toList_repr
  rw [hlist]
  clear hlist
  induction n using Nat.strongRecOn with
  | _ n ih =>
    rcases Nat.lt_or_ge n 10 with hlt | hge
    · have hpos : 1 ≤ n := Nat.pos_of_ne_zero hn
      interval_cases n <;> rfl
    · have hsplit : Nat.toDigits 10 n = Nat.toDigits 10 (n / 10) ++ Nat.toDigits 10 (n % 10) := by
        rw [Nat.toDigits_append_toDigits (by decide) (by omega) (Nat.mod_lt n (by decide)),Nat.div_add_mod]
      rw [hsplit,List.head?_append_of_ne_nil _ Nat.toDigits_ne_nil]
      exact ih (n / 10) (by omega) (by omega)

end Digits

namespace Token

/-- The number of the group that a token refers to, if it is one that may be written. -/
def number? : Token → Option Nat
  | reference digits => if digitsValue digits ≤ maxReference then some (digitsValue digits) else none
  | _ => none

/-- What the light scan makes of a backslash and a number behind it. -/
def ofNumber (n : Nat) : Token := if n = 0 then escape '0' else reference (toString n).toList

/-- A token after its reference, if it is one, has moved. -/
def moved (o : Nat) (t : Token) : Token :=
  match t.number? with
  | some n => ofNumber ((n + o) % UInt64.size)
  | none => t

lemma text_ofNumber (n : Nat) : (ofNumber n).text = '\\' :: (toString n).toList := by
  unfold ofNumber
  split
  · rename_i hn
    subst hn
    rfl
  · rfl

@[simp] lemma captures_ofNumber (n : Nat) : (ofNumber n).captures = false := by
  unfold ofNumber
  split <;> rfl

lemma standsBefore_ofNumber (n : Nat) (h : rest.head?.any Char.isDigit = false) : (ofNumber n).StandsBefore rest := by
  unfold ofNumber
  split
  · exact ⟨rfl,by decide⟩
  · exact ⟨isReference_toString ‹_›,h⟩

lemma number?_eq_some {m : Nat} : t.number? = some m ↔ ∃ digits, t = reference digits ∧ m = digitsValue digits ∧
    m ≤ maxReference := by
  cases t with
  | reference digits =>
    rw [number?,Option.ite_none_right_eq_some,Option.some.injEq]
    constructor
    · rintro ⟨hle,rfl⟩
      exact ⟨digits,rfl,rfl,hle⟩
    · rintro ⟨_,heq,rfl,hle⟩
      cases heq
      exact ⟨hle,rfl⟩
  | _ => simp [number?]

lemma moved_of_none (h : t.number? = none) : t.moved o = t := by rw [moved,h]

lemma moved_of_some {m : Nat} (h : t.number? = some m) : t.moved o = ofNumber ((m + o) % UInt64.size) := by
  rw [moved,h]

/-- A token spells out, after its move, what the rewriting makes of it. -/
@[simp] lemma text_moved (o : Nat) (t : Token) : (t.moved o).text = t.shifted o := by
  cases t with
  | reference digits =>
    by_cases hle : digitsValue digits ≤ maxReference
    · have hm : (reference digits).number? = some (digitsValue digits) := if_pos hle
      rw [moved_of_some hm,text_ofNumber,shifted,if_pos hle]
    · have hm : (reference digits).number? = none := if_neg hle
      rw [moved_of_none hm,shifted,if_neg hle]
      rfl
  | _ => rfl

@[simp] lemma captures_moved (o : Nat) (t : Token) : (t.moved o).captures = t.captures := by
  rw [moved]
  split
  · rename_i hn
    obtain ⟨digits,rfl,-⟩ := number?_eq_some.mp hn
    exact captures_ofNumber _
  · rfl

lemma head?_shifted (o : Nat) (t : Token) : (t.shifted o).head? = t.text.head? := by
  cases t with
  | reference digits =>
    rw [shifted]
    split <;> rfl
  | _ => rfl

/-- A reference spells out a backslash and digits also after it has moved. -/
lemma exists_shifted_reference (h : IsReference ds) (o : Nat) :
    ∃ es, (reference ds).shifted o = '\\' :: es ∧ es ≠ [] ∧ ∀ d ∈ es, d.isDigit = true := by
  rw [shifted]
  split
  · exact ⟨_,rfl,toString_ne_nil _,fun _ => isDigit_toString⟩
  · obtain ⟨e,es,rfl,-⟩ := h.exists_cons
    exact ⟨_,rfl,List.cons_ne_nil _ _,h.2⟩

/-- The scan finds a token also after it has moved. -/
lemma StandsBefore.moved (h : t.StandsBefore rest) (o : Nat) : (t.moved o).StandsBefore rest := by
  cases hm : t.number? with
  | none => exact (moved_of_none hm).symm ▸ h
  | some m =>
    obtain ⟨digits,rfl,-⟩ := number?_eq_some.mp hm
    exact (moved_of_some hm).symm ▸ standsBefore_ofNumber _ h.2

/-- No reference has the number zero. -/
lemma StandsBefore.ne_zero (h : t.StandsBefore rest) {m : Nat} (hm : t.number? = some m) : m ≠ 0 := by
  obtain ⟨digits,rfl,rfl,-⟩ := number?_eq_some.mp hm
  exact h.1.value_ne_zero

/-- Where a number can be written after its move, nothing goes round. -/
lemma StandsBefore.moved_eq (h : t.StandsBefore rest) {m : Nat} (hm : t.number? = some m) (hroom : m + o ≤ maxReference) :
    t.moved o = reference (toString (m + o)).toList := by
  have hne : m + o ≠ 0 := fun hzero => h.ne_zero hm (Nat.eq_zero_of_add_eq_zero_right hzero)
  rw [moved_of_some hm,Nat.mod_eq_of_lt (Nat.lt_of_le_of_lt hroom (by decide)),ofNumber,if_neg hne]

lemma StandsBefore.moved_zero (h : t.StandsBefore rest) : t.moved 0 = t := by
  cases hm : t.number? with
  | none => exact moved_of_none hm
  | some m =>
    obtain ⟨digits,rfl,rfl,hle⟩ := number?_eq_some.mp hm
    rw [h.moved_eq hm hle]
    exact congrArg reference h.1.toString_value

/-- Moves add up as long as the number after the first can be written. -/
lemma StandsBefore.moved_moved (h : t.StandsBefore rest) (hroom : ∀ m ∈ t.number?, m + a ≤ maxReference) (b : Nat) :
    (t.moved a).moved b = t.moved (a + b) := by
  cases hm : t.number? with
  | none => rw [moved_of_none hm,moved_of_none hm,moved_of_none hm]
  | some m =>
    have hagain : (reference (toString (m + a)).toList).number? = some (m + a) :=
      number?_eq_some.mpr ⟨_,rfl,(decimalValue_toString _).symm,hroom m hm⟩
    rw [h.moved_eq hm (hroom m hm),moved_of_some hagain,moved_of_some hm,Nat.add_assoc]

end Token

lemma shiftChars_text (h : t.StandsBefore rest) (o : Nat) :
    shiftChars o (t.text ++ rest) = t.shifted o ++ shiftChars o rest := by
  rw [shiftChars,tokensOf_text h,List.flatMap_cons]
  rfl

/-- A text whose references move by nothing stays as it is. -/
theorem shiftChars_zero (cs : List Char) : shiftChars 0 cs = cs := by
  induction cs using scan_induction with
  | nil => rfl
  | token t rest h ih => rw [shiftChars_text h,ih,← Token.text_moved,h.moved_zero]

/-- A group closes behind a text whose references stay where they are. -/
lemma inGroup_zero (tail cs : List Char) : inGroup 0 tail cs = cs ++ ')' :: tail := by rw [inGroup,shiftChars_zero]

section Behind

/-- What follows a token starts as before, after its references have moved. -/
lemma head?_shiftChars (o : Nat) (cs : List Char) : (shiftChars o cs).head? = cs.head? := by
  induction cs using scan_induction with
  | nil => rfl
  | token t rest h ih => rw [shiftChars_text h,List.head?_append,List.head?_append,t.head?_shifted,ih]

lemma opensNamed_shiftChars (o : Nat) (cs : List Char) : opensNamed (shiftChars o cs) = opensNamed cs := by
  cases cs with
  | nil => rfl
  | cons c rest =>
    by_cases hc : IsOrdinary c
    · rw [shiftChars_cons,nextToken_ordinary hc]
      change opensNamed (c :: shiftChars o rest) = _
      rw [opensNamed_cons,opensNamed_cons,head?_shiftChars]
    · have hhead := head?_shiftChars o (c :: rest)
      have hP : c ≠ 'P' := by
        rintro rfl
        exact hc isOrdinary_P.1
      have hless : c ≠ '<' := by
        rintro rfl
        exact hc isOrdinary_less.1
      obtain ⟨cs,hcs⟩ := List.head?_eq_some_iff.mp (hhead.trans rfl)
      rw [hcs,opensNamed_cons,opensNamed_cons,beq_false_of_ne hP,beq_false_of_ne hless]
      rfl

lemma setBody?_digits (hne : ds ≠ []) (h : ∀ d ∈ ds, d.isDigit = true) (cs : List Char) :
    setBody? ('\\' :: (ds ++ cs)) = none ↔ setBody? cs = none := by
  have hwordy : ∀ d, d.isDigit = true → IsWordy d := fun d hd => spares_isDigit.wordy rfl hd
  obtain ⟨e,es,rfl⟩ := List.exists_cons_of_ne_nil hne
  have hline : e ≠ '\n' := by
    rintro rfl
    exact absurd (h _ List.mem_cons_self) (by decide)
  rw [List.cons_append,setBody?_escape hline,
    setBody?_append (fun d hd => hwordy d (h d (List.mem_cons_of_mem e hd))),Option.map_eq_none_iff,
    Option.map_eq_none_iff]

lemma setBody?_cons_eq_none (hslash : c ≠ '\\') (hend : c ≠ ']') (cs : List Char) :
    setBody? (c :: cs) = none ↔ setBody? cs = none := by
  rw [setBody?_plain hslash hend,Option.map_eq_none_iff]

/-- A bracket that opens no set opens none after the references behind it have moved. -/
lemma setBody?_shiftChars (o : Nat) (h : setBody? cs = none) : setBody? (shiftChars o cs) = none := by
  induction cs using scan_induction with
  | nil => rfl
  | token t rest hs ih =>
    have hparen := setBody?_cons_eq_none (c := '(') (by decide) (by decide)
    have hmark := setBody?_cons_eq_none (c := '?') (by decide) (by decide)
    rw [shiftChars_text hs]
    cases t with
    | plain d =>
      change setBody? (d :: rest) = none at h
      change setBody? (d :: shiftChars o rest) = none
      by_cases hslash : d = '\\'
      · subst hslash
        cases rest with
        | nil => rfl
        | cons e rest =>
          obtain rfl : e = '\n' := by simpa using hs.2.2 rfl
          rw [shiftChars_cons]
          rfl
      · have hend : d ≠ ']' := by
          rintro rfl
          cases h
        have hplain := setBody?_cons_eq_none hslash hend
        exact (hplain _).mpr (ih ((hplain _).mp h))
    | set body =>
      have hbody : setBody? (body ++ ']' :: rest) = some (body,rest) := hs
      have h : setBody? ('[' :: (body ++ ']' :: rest)) = none := by simpa [Token.text] using h
      rw [setBody?_cons_eq_none (by decide) (by decide),hbody] at h
      cases h
    | group => exact (hparen _).mpr (ih ((hparen _).mp h))
    | special captures =>
      have hrest := (hmark _).mp ((hparen _).mp h)
      exact (hparen _).mpr ((hmark _).mpr (ih hrest))
    | reference digits =>
      obtain ⟨e,es,rfl,-⟩ := hs.1.exists_cons
      have hrest := (setBody?_digits (List.cons_ne_nil e es) hs.1.2 rest).mp h
      obtain ⟨ds,hds,hne,hdigits⟩ := Token.exists_shifted_reference hs.1 o
      rw [hds]
      exact (setBody?_digits hne hdigits _).mpr (ih hrest)
    | escape d =>
      change setBody? ('\\' :: d :: rest) = none at h
      change setBody? ('\\' :: d :: shiftChars o rest) = none
      rw [setBody?_escape hs.2,Option.map_eq_none_iff] at h ⊢
      exact ih h

/-- A token is found also where the references behind it have moved. -/
lemma Token.StandsBefore.shiftChars (h : t.StandsBefore rest) (o : Nat) : t.StandsBefore (shiftChars o rest) := by
  cases t with
  | plain d =>
    refine ⟨h.1,fun hd => setBody?_shiftChars o (h.2.1 hd),fun hd => ?_⟩
    rw [head?_shiftChars]
    exact h.2.2 hd
  | set body => exact setBody?_of_append h _
  | group =>
    change (Rules.shiftChars o rest).head? ≠ some '?'
    rw [head?_shiftChars]
    exact h
  | special captures => exact (opensNamed_shiftChars o rest).trans h
  | reference digits => exact ⟨h.1,(head?_shiftChars o rest).symm ▸ h.2⟩
  | escape d => exact h

end Behind

/-- The light scan finds the tokens of a text again after its references have moved. -/
theorem tokensOf_shiftChars (o : Nat) (cs : List Char) :
    tokensOf (shiftChars o cs) = (tokensOf cs).map (Token.moved o) := by
  induction cs using scan_induction with
  | nil => rfl
  | token t rest h ih =>
    have hstands : (t.moved o).StandsBefore (shiftChars o rest) := (h.shiftChars o).moved o
    rw [shiftChars_text h,← t.text_moved,tokensOf_text hstands,ih,tokensOf_text h,List.map_cons]

theorem groupCount_shiftChars (o : Nat) (cs : List Char) : groupCount (shiftChars o cs) = groupCount cs := by
  rw [groupCount,tokensOf_shiftChars,List.countP_map]
  exact List.countP_congr fun t _ => by rw [Function.comp_apply,Token.captures_moved]

/-- Each token of a text stands before what is left behind it. -/
lemma exists_standsBefore (h : t ∈ tokensOf cs) : ∃ rest, t.StandsBefore rest := by
  induction cs using scan_induction with
  | nil => cases h
  | token t' rest hs ih =>
    rw [tokensOf_text hs] at h
    rcases List.mem_cons.mp h with rfl | h
    · exact ⟨rest,hs⟩
    · exact ih h

/-- The numbers of the groups that a text refers to. -/
def referenceNumbers (cs : List Char) : List Nat := (tokensOf cs).filterMap Token.number?

/-- Moves add up, if the numbers can be written after the first one. -/
theorem shiftChars_shiftChars (hroom : ∀ n ∈ referenceNumbers cs, n + a ≤ maxReference) (b : Nat) :
    shiftChars b (shiftChars a cs) = shiftChars (a + b) cs := by
  have htoken : ∀ t ∈ tokensOf cs, (t.moved a).shifted b = t.shifted (a + b) := by
    intro t ht
    obtain ⟨rest,hstands⟩ := exists_standsBefore ht
    have hmoved := hstands.moved_moved (fun n hn => hroom n (List.mem_filterMap.mpr ⟨t,ht,hn⟩)) b
    rw [← Token.text_moved,hmoved,Token.text_moved]
  calc shiftChars b (shiftChars a cs)
      = ((tokensOf cs).map (Token.moved a)).flatMap (Token.shifted b) := by rw [shiftChars,tokensOf_shiftChars]
    _ = (tokensOf cs).flatMap (fun t => (t.moved a).shifted b) := List.flatMap_map ..
    _ = shiftChars (a + b) cs := List.flatMap_congr htoken

/-- A text that is complete to the light scan: no parenthesis before it makes something else of how it starts, no
bracket in it waits for the end of a set, and no backslash behind all else waits for a character. -/
structure Complete (cs : List Char) : Prop where
  unmarked : cs.head? ≠ some '?'
  brackets : Token.plain '[' ∉ tokensOf cs
  backslash : (tokensOf cs).getLast? ≠ some (.plain '\\')

instance (cs : List Char) : Decidable (Complete cs) :=
  decidable_of_iff (cs.head? ≠ some '?' ∧ Token.plain '[' ∉ tokensOf cs ∧
    (tokensOf cs).getLast? ≠ some (.plain '\\')) ⟨fun h => ⟨h.1,h.2.1,h.2.2⟩,fun h => ⟨h.1,h.2,h.3⟩⟩

/-- The tokens of a complete text that stands in a group after its references have moved. -/
theorem tokensOf_inGroup (h : Complete cs) (o : Nat) (tail : List Char) : tokensOf ('(' :: inGroup o tail cs) =
    .group :: ((tokensOf cs).map (Token.moved o) ++ .plain ')' :: tokensOf tail) := by
  have hhead : (inGroup o tail cs).head? ≠ some '?' :=
    fun hhead => h.unmarked (head?_of_inGroup (by decide) hhead)
  have hmoved : ∀ {t : Token} {c : Char}, t.moved o = .plain c → t = .plain c := by
    intro t c ht
    cases hm : t.number? with
    | none => rwa [Token.moved_of_none hm] at ht
    | some m =>
      rw [Token.moved_of_some hm,Token.ofNumber] at ht
      split at ht <;> cases ht
  rw [tokensOf_cons,nextToken_group hhead,inGroup,tokensOf_append_paren,tokensOf_shiftChars]
  · rw [tokensOf_shiftChars]
    intro hmem
    obtain ⟨t,ht,heq⟩ := List.mem_map.mp hmem
    exact h.brackets (hmoved heq ▸ ht)
  · rw [tokensOf_shiftChars,List.getLast?_map]
    intro hlast
    obtain ⟨t,ht,heq⟩ := Option.map_eq_some_iff.mp hlast
    exact h.backslash (hmoved heq ▸ ht)

end Highlight.Rules
