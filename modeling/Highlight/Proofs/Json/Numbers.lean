import Highlight.Proofs.Json.Text
import Highlight.Proofs.Regex.Costs
import Highlight.Proofs.Text.Slice

/-!
Numbers. The pattern for the numbers of programs leads over a number of JSON as a whole, and there are few
returns on the way.
-/
namespace Highlight.JsonText

open Regex Pattern

def digitSet : CharSet := .property .digit
def markSet : CharSet := .union (.union .empty (.single 'e')) (.single 'E')
def signSet : CharSet := .union (.union .empty (.single '-')) (.single '+')

/-- The parts of the pattern for numbers, with groups from a number on. -/
def signPattern : Pattern := .loop (.set (.single '-')) 0 (some 1) true

def hexPattern : Pattern :=
  .cat (.assert .wordBoundary) (.cat (.set (.single '0'))
    (.cat (.set (.union (.union .empty (.single 'x')) (.single 'X')))
      (.loop (.set (.union (.union (.union .empty (.range 'a' 'f')) (.range 'A' 'F')) (.range '0' '9'))) 1 none
        true)))

def fractionPattern (n : Nat) : Pattern :=
  .loop (.group n (.cat (.set (.single '.')) (.loop (.set digitSet) 0 none true))) 0 (some 1) true

def exponentPattern (n : Nat) : Pattern :=
  .loop (.group n (.cat (.set markSet) (.cat (.loop (.set signSet) 0 (some 1) true)
    (.loop (.set digitSet) 1 none true)))) 0 (some 1) true

def decimalPattern (n : Nat) : Pattern :=
  .cat (.group n (.alt (.cat (.assert .wordBoundary) (.cat (.loop (.set digitSet) 1 none true)
      (fractionPattern (n + 1))))
    (.cat (.set (.single '.')) (.loop (.set digitSet) 1 none true))))
    (exponentPattern (n + 2))

def numberPattern (n : Nat) : Pattern :=
  .cat (.group (n + 1) signPattern) (.group (n + 2) (.alt hexPattern (decimalPattern (n + 3))))

variable {t : Haystack} {text : Source} {i : Nat} {c : Char}

def digitChars : List Char := ['0','1','2','3','4','5','6','7','8','9']

lemma mem_digitChars (h : c.isDigit = true) : c ∈ digitChars := by
  have h' : 48 ≤ c.toNat ∧ c.toNat ≤ 57 := by
    simpa [Char.isDigit,UInt32.le_iff_toNat_le] using h
  obtain ⟨h1,h2⟩ := h'
  have hall : ∀ n ≤ 57, 48 ≤ n → Char.ofNat n ∈ digitChars := by decide
  rw [← Char.ofNat_toNat c]
  exact hall c.toNat h2 h1

/-- What may follow a value: a blank, a comma, the end of a container or of the text. -/
def followers : List (Option Char) := none :: (blankChars ++ [',',']','\x7d']).map some

def afterFraction : List (Option Char) := some 'e' :: some 'E' :: followers

def afterWhole : List (Option Char) := some '.' :: afterFraction

/-! What the parts of the pattern make of what comes next. -/
section Next

lemma contains_digitSet (h : c ∈ digitChars) : digitSet.contains c = true := by
  have hall : ∀ c ∈ digitChars, digitSet.contains c = true := forall_of_all (by decide)
  exact hall c h

lemma not_contains_digitSet {o : Option Char} (h : o ∈ afterWhole) (hc : o = some c) :
    digitSet.contains c = false := by
  have hall : ∀ o ∈ afterWhole, o.any digitSet.contains = false := by decide
  simpa [hc] using hall o h

lemma refuses_sign (h : c ∈ digitChars) : (Pattern.set (.single '-')).refuses? [some c] = some 0 := by
  have hall : ∀ c ∈ digitChars, (Pattern.set (.single '-')).refuses? [some c] = some 0 :=
    forall_of_all (by decide)
  exact hall c h

lemma refuses_hex {o : Option Char} (h : c = '0' → o ∈ afterWhole) :
    hexPattern.refuses? [some c,o] = some 0 := by
  have hzero : ∀ o ∈ afterWhole, hexPattern.refuses? [some '0',o] = some 0 := by decide
  by_cases hc : c = '0'
  · exact hc ▸ hzero o (h hc)
  · have hne : ('0' == c) = false := beq_eq_false_iff_ne.mpr (Ne.symm hc)
    simp [hexPattern,refuses?,returns?,CharSet.contains,hne]

lemma refuses_point {o : Option Char} (h : o ∈ afterFraction) (n : Nat) :
    (Pattern.group n (.cat (.set (.single '.')) (.loop (.set digitSet) 0 none true))).refuses? [o] = some 0 := by
  have hall : ∀ o ∈ afterFraction,
      (Pattern.cat (.set (.single '.')) (.loop (.set digitSet) 0 none true)).refuses? [o] = some 0 := by decide
  exact hall o h

lemma refuses_mark {o : Option Char} (h : o ∈ followers) (n : Nat) :
    (Pattern.group n (.cat (.set markSet) (.cat (.loop (.set signSet) 0 (some 1) true)
      (.loop (.set digitSet) 1 none true)))).refuses? [o] = some 0 := by
  have hall : ∀ o ∈ followers, (Pattern.cat (.set markSet) (.cat (.loop (.set signSet) 0 (some 1) true)
      (.loop (.set digitSet) 1 none true))).refuses? [o] = some 0 := by decide
  exact hall o h

lemma refuses_exponentSign (h : c ∈ digitChars) : (Pattern.set signSet).refuses? [some c] = some 0 := by
  have hall : ∀ c ∈ digitChars, (Pattern.set signSet).refuses? [some c] = some 0 := forall_of_all (by decide)
  exact hall c h

end Next

/-- The digits that stand at a position are taken by a loop, if something else comes after them. -/
lemma goesTo_digits {cs : List Char} {least : Nat} (hspells : text.Spells i cs) (hi : i ≤ text.size)
    (hdigits : ∀ c ∈ cs, c ∈ digitChars) (hleast : least ≤ cs.length)
    (hstop : text[i + cs.length]? ∈ afterWhole) :
    (Pattern.loop (.set digitSet) least none true).GoesTo { text } i (i + cs.length) 1 := by
  refine goesTo_run (Nat.add_le_add_left hleast i) (hspells.le_size hi) (fun k hk hlt => ?_)
    (fun c hc => not_contains_digitSet hstop hc)
  obtain ⟨c,hc,hchar⟩ := hspells.exists_getElem? hk hlt
  exact ⟨c,hchar,contains_digitSet (hdigits c hc)⟩

lemma Digits.mem_digitChars (d : Digits) : ∀ c ∈ d.chars, c ∈ digitChars := by
  intro c hc
  rcases List.mem_cons.mp hc with rfl | hc
  · exact JsonText.mem_digitChars d.isDigit
  · exact JsonText.mem_digitChars (d.rest.property c hc)

lemma Digits.length_pos (d : Digits) : 1 ≤ d.chars.length := Nat.succ_le_succ (Nat.zero_le _)

lemma mem_afterWhole_of_followers {o : Option Char} (h : o ∈ followers) : o ∈ afterWhole :=
  List.mem_cons_of_mem _ (List.mem_cons_of_mem _ (List.mem_cons_of_mem _ h))

/-- The sign of an exponent, if there is one, is taken. -/
lemma goesTo_exponentSign (e : Exponent) (hspells : text.Spells i (e.sign.toList ++ e.digits.chars))
    (hi : i ≤ text.size) : ∃ m ≤ 1, (Pattern.loop (.set signSet) 0 (some 1) true).GoesTo { text } i
      (i + e.sign.toList.length) m := by
  cases hsign : e.sign with
  | none =>
    rw [hsign] at hspells
    exact ⟨1,Nat.le_refl _,goesTo_omitted (refuses_exponentSign (e.digits.mem_digitChars _ List.mem_cons_self))
      (Haystack.shows_one hspells.head) hi⟩
  | some c =>
    rw [hsign] at hspells
    have hc : signSet.contains c = true := by rcases e.isSign c hsign with rfl | rfl <;> rfl
    have hchar : Haystack.charAt? { text } i = some c := hspells.head
    exact ⟨0,Nat.zero_le _,(goesTo_set hchar hc).optional⟩

/-- The exponent of a number, if there is one, is taken. -/
lemma goesTo_exponent (n : Number) (k : Nat) (hspells : text.Spells i n.exponentChars) (hi : i ≤ text.size)
    (hstop : text[i + n.exponentChars.length]? ∈ followers) :
    ∃ m ≤ 2, (exponentPattern k).GoesTo { text } i (i + n.exponentChars.length) m := by
  rw [Number.exponentChars] at hspells hstop ⊢
  cases hexponent : n.exponent with
  | none =>
    rw [hexponent] at hspells hstop
    exact ⟨1,by omega,goesTo_omitted (refuses_mark hstop k) (Haystack.shows_one rfl) hi⟩
  | some e =>
    rw [hexponent] at hspells hstop
    have hmark : markSet.contains e.mark = true := by rcases e.isMark with h | h <;> rw [h] <;> rfl
    have hfirst : (Pattern.set markSet).GoesTo { text } i (i + 1) 0 := goesTo_set hspells.head hmark
    have hsize : i + 1 ≤ text.size := Haystack.lt_size_of_charAt? (t := { text }) hspells.head
    obtain ⟨m,hm,hsign⟩ := goesTo_exponentSign e hspells.tail hsize
    have hrest : text.Spells (i + 1 + e.sign.toList.length) e.digits.chars := hspells.tail.right
    have hsize' := hspells.tail.left.le_size hsize
    have hlength : i + e.chars.length = i + 1 + e.sign.toList.length + e.digits.chars.length := by
      simp only [Exponent.chars,List.length_cons,List.length_append,List.cons_append]
      omega
    rw [Option.elim_some,hlength] at hstop ⊢
    have hdigits := goesTo_digits hrest hsize' e.digits.mem_digitChars e.digits.length_pos
      (mem_afterWhole_of_followers hstop)
    exact ⟨_,by omega,((hfirst.cat (hsign.cat hdigits)).group k).optional⟩

/-- The fraction of a number, if there is one, is taken. -/
lemma goesTo_fraction (n : Number) (k : Nat) (hspells : text.Spells i n.fractionChars) (hi : i ≤ text.size)
    (hstop : text[i + n.fractionChars.length]? ∈ afterFraction) :
    (fractionPattern k).GoesTo { text } i (i + n.fractionChars.length) 1 := by
  rw [Number.fractionChars] at hspells hstop ⊢
  cases hfraction : n.fraction with
  | none =>
    rw [hfraction] at hspells hstop
    exact goesTo_omitted (refuses_point hstop k) (Haystack.shows_one rfl) hi
  | some d =>
    rw [hfraction] at hspells hstop
    have hpoint : (Pattern.set (.single '.')).GoesTo { text } i (i + 1) 0 := goesTo_set hspells.head rfl
    have hlength : i + ('.' :: d.chars).length = i + 1 + d.chars.length := by
      rw [List.length_cons,Nat.add_assoc,Nat.add_comm 1]
    have hsize : i + 1 ≤ text.size := Haystack.lt_size_of_charAt? (t := { text }) hspells.head
    rw [Option.elim_some,hlength] at hstop ⊢
    exact ((hpoint.cat (goesTo_digits hspells.tail hsize d.mem_digitChars (Nat.zero_le _)
      (List.mem_cons_of_mem _ hstop))).group k).optional

lemma Whole.mem_digitChars (w : Whole) : ∀ c ∈ w.chars, c ∈ digitChars := by
  cases w with
  | zero => exact forall_of_all (by decide)
  | other d _ => exact d.mem_digitChars

lemma Whole.length_pos (w : Whole) : 1 ≤ w.chars.length := by
  cases w with
  | zero => exact Nat.le_refl 1
  | other d _ => exact d.length_pos

/-- What comes after the digits before the point. -/
lemma Number.mem_afterFraction (n : Number) (hspells : text.Spells i n.exponentChars)
    (hstop : text[i + n.exponentChars.length]? ∈ followers) : text[i]? ∈ afterFraction := by
  rw [Number.exponentChars] at hspells hstop
  cases hexponent : n.exponent with
  | none =>
    rw [hexponent] at hstop
    exact List.mem_cons_of_mem _ (List.mem_cons_of_mem _ hstop)
  | some e =>
    rw [hexponent] at hspells
    rw [show text[i]? = some e.mark from hspells.head]
    rcases e.isMark with h | h
    · exact h ▸ List.mem_cons_self
    · exact h ▸ List.mem_cons_of_mem _ List.mem_cons_self

lemma Number.mem_afterWhole (n : Number) (hspells : text.Spells i (n.fractionChars ++ n.exponentChars))
    (hstop : text[i + n.fractionChars.length + n.exponentChars.length]? ∈ followers) :
    text[i]? ∈ afterWhole := by
  have hrest := n.mem_afterFraction hspells.right hstop
  rw [Number.fractionChars] at hspells hrest
  cases hfraction : n.fraction with
  | none =>
    rw [hfraction] at hrest
    exact List.mem_cons_of_mem _ hrest
  | some d =>
    rw [hfraction] at hspells
    rw [show text[i]? = some '.' from hspells.head]
    exact List.mem_cons_self

/-- The first of several digits is a zero only if it is the only one. -/
lemma Whole.exists_cons (w : Whole) : ∃ c cs, w.chars = c :: cs ∧ (c = '0' → cs = []) := by
  cases w with
  | zero => exact ⟨'0',[],rfl,fun _ => rfl⟩
  | other d h => exact ⟨d.first,d.rest.val,rfl,fun h' => absurd h' h⟩

/-- A number starts with its sign or with a digit. -/
lemma Number.exists_cons (n : Number) : ∃ c cs, n.chars = c :: cs ∧ c ∈ '-' :: digitChars := by
  obtain ⟨c,cs,hc,-⟩ := n.whole.exists_cons
  simp only [Number.chars,Number.signChars]
  split
  · exact ⟨_,_,rfl,List.mem_cons_self⟩
  · rw [hc]
    exact ⟨_,_,rfl,List.mem_cons_of_mem _ (n.whole.mem_digitChars c (hc ▸ List.mem_cons_self))⟩

/-- The sign of a number, if there is one, is taken. What follows starts a word. -/
lemma Number.goesTo_sign (n : Number) (k : Nat) (hspells : text.Spells i n.signChars) (hi : i ≤ text.size)
    (hbefore : ∀ c, Haystack.charBefore? { text } i = some c → Text.isWord c = false)
    (hchar : Haystack.charAt? { text } (i + n.signChars.length) = some c) (hdigit : c ∈ digitChars) :
    ∃ m ≤ 1, (Pattern.group (k + 1) signPattern).GoesTo { text } i (i + n.signChars.length) m ∧
      Assertion.wordBoundary.holds { text } (i + n.signChars.length) = true := by
  have hword : Text.isWord c = true := by
    have hall : ∀ c ∈ digitChars, Text.isWord c = true := forall_of_all (by decide)
    exact hall c hdigit
  have hboundary : ∀ {j}, Haystack.charAt? { text } j = some c →
      (∀ d, Haystack.charBefore? { text } j = some d → Text.isWord d = false) →
      Assertion.wordBoundary.holds { text } j = true := by
    intro j hj hbefore
    rw [Assertion.holds,Haystack.isBoundary,hj]
    cases hd : Haystack.charBefore? { text } j with
    | none => simp [hword]
    | some d => simp [hword,hbefore d hd]
  cases hnegative : n.negative with
  | false =>
    simp only [Number.signChars,hnegative,Bool.false_eq_true,if_false,List.length_nil,Nat.add_zero] at hchar ⊢
    exact ⟨1,Nat.le_refl _,(goesTo_omitted (refuses_sign hdigit) (Haystack.shows_one hchar) hi).group (k + 1),
      hboundary hchar hbefore⟩
  | true =>
    simp only [Number.signChars,hnegative,if_true,List.length_singleton] at hspells hchar ⊢
    have hminus : Haystack.charAt? { text } i = some '-' := hspells.head
    refine ⟨0,Nat.zero_le _,((goesTo_set hminus rfl).optional).group (k + 1),hboundary hchar (fun d hd => ?_)⟩
    rw [Haystack.charBefore?,if_neg (by simp),Nat.add_sub_cancel] at hd
    obtain rfl := Option.some.inj (hminus.symm.trans hd)
    rfl

/-- The pattern for numbers leads over a number that does not follow a word. -/
theorem goesTo_number (n : Number) (k : Nat) (hspells : text.Spells i n.chars) (hi : i ≤ text.size)
    (hbefore : ∀ c, Haystack.charBefore? { text } i = some c → Text.isWord c = false)
    (hstop : text[i + n.chars.length]? ∈ followers) :
    ∃ m ≤ 6, (numberPattern k).GoesTo { text } i (i + n.chars.length) m := by
  have hwhole : text.Spells (i + n.signChars.length) n.whole.chars := hspells.left.left.right
  have hrest : text.Spells (i + n.signChars.length + n.whole.chars.length)
      (n.fractionChars ++ n.exponentChars) := by
    rw [Nat.add_assoc,← List.length_append]
    exact Source.Spells.right (by rwa [← List.append_assoc])
  have hsize := hspells.left.left.left.le_size hi
  have hsize' := hwhole.le_size hsize
  have hlength : i + n.chars.length = i + n.signChars.length + n.whole.chars.length + n.fractionChars.length +
      n.exponentChars.length := by
    simp only [Number.chars,List.length_append]
    omega
  rw [hlength] at hstop ⊢
  have hafter := n.mem_afterWhole hrest hstop
  obtain ⟨c,cs,hc,hzero⟩ := n.whole.exists_cons
  have hdigit : c ∈ digitChars := n.whole.mem_digitChars c (hc ▸ List.mem_cons_self)
  have hchar : Haystack.charAt? { text } (i + n.signChars.length) = some c := (hc ▸ hwhole).head
  obtain ⟨m,hm,hsign,hboundary⟩ := n.goesTo_sign k hspells.left.left.left hi hbefore hchar hdigit
  obtain ⟨m',hm',hexponent⟩ := goesTo_exponent n (k + 5) hrest.right (hrest.left.le_size hsize') hstop
  have hfraction := goesTo_fraction n (k + 4) hrest.left hsize' (n.mem_afterFraction hrest.right hstop)
  have hdigits := goesTo_digits hwhole hsize n.whole.mem_digitChars n.whole.length_pos hafter
  have hhex : hexPattern.refuses? [some c,text[i + n.signChars.length + 1]?] = some 0 :=
    refuses_hex (fun h => by
      rw [hc,hzero h] at hafter
      exact hafter)
  have hshows : Haystack.Shows { text } (i + n.signChars.length) [some c,text[i + n.signChars.length + 1]?] :=
    .cons (Haystack.shows_one rfl) hchar
  have hdecimal : (decimalPattern (k + 3)).GoesTo { text } (i + n.signChars.length) _ _ :=
    (((goesTo_assert hboundary).cat (hdigits.cat hfraction)).altLeft _ |>.group (k + 3)).cat hexponent
  exact ⟨_,by omega,hsign.cat ((GoesTo.altRight hhex hshows hsize hdecimal).group (k + 2))⟩

end Highlight.JsonText
