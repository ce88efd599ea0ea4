import Highlight.Proofs.Rules.Lifted

/-!
Tokens of the light scan and the texts that they spell out. A token says what must follow its text for the scan to
find it there, and every text is one token before another text, up to its end. The tokens of a text that waits for
nothing stay the same where a parenthesis closes it.
-/
namespace Highlight.Rules

open Regex

variable {cs ds rest tail : List Char} {c : Char} {t : Token}

/-- Digits that may stand in a reference. -/
def IsReference (digits : List Char) : Prop :=
  digits.head?.any startsReference = true ∧ ∀ d ∈ digits, d.isDigit = true

lemma IsReference.exists_cons (h : IsReference ds) :
    ∃ e es, ds = e :: es ∧ startsReference e = true ∧ ∀ d ∈ es, d.isDigit = true := by
  cases ds with
  | nil => cases h.1
  | cons e es => exact ⟨e,es,rfl,h.1,fun d hd => h.2 d (List.mem_cons_of_mem e hd)⟩

lemma IsReference.value_ne_zero (h : IsReference ds) : digitsValue ds ≠ 0 := by
  obtain ⟨e,es,rfl,he,-⟩ := h.exists_cons
  exact decimalValue_ne_zero he es

namespace Token

lemma text_ne_nil (t : Token) : t.text ≠ [] := by
  cases t <;> exact List.cons_ne_nil _ _

/-- Whether the light scan finds a token where its text stands before `rest`. -/
def StandsBefore (rest : List Char) : Token → Prop
  | plain c => c ≠ '(' ∧ (c = '[' → setBody? rest = none) ∧ (c = '\\' → rest.head?.all (· == '\n') = true)
  | set body => setBody? (body ++ ']' :: rest) = some (body,rest)
  | group => rest.head? ≠ some '?'
  | special captures => opensNamed rest = captures
  | reference digits => IsReference digits ∧ rest.head?.any Char.isDigit = false
  | escape c => startsReference c = false ∧ c ≠ '\n'

end Token

/-- The light scan finds a token in a text, and goes on behind it. -/
lemma nextToken_text (h : t.StandsBefore rest) (htext : t.text ++ rest = c :: cs) : nextToken c cs = (t,rest) := by
  cases t with
  | plain d =>
    cases (htext : d :: rest = c :: cs)
    obtain ⟨hparen,hbracket,hslash⟩ := h
    by_cases hb : c = '['
    · subst hb
      have hnone : setBody? rest = none := hbracket rfl
      change nextToken '[' rest = _
      simp only [nextToken,hnone]
    · by_cases hs : c = '\\'
      · subst hs
        cases rest with
        | nil => rfl
        | cons e rest =>
          obtain rfl : e = '\n' := by simpa using hslash rfl
          rfl
      · exact nextToken_ordinary ⟨hb,hparen,hs⟩ rest
  | set body =>
    have hbody : '[' :: (body ++ ']' :: rest) = c :: cs := by simpa [Token.text] using htext
    cases hbody
    exact nextToken_set h
  | group =>
    cases (htext : '(' :: rest = c :: cs)
    exact nextToken_group h
  | special captures =>
    cases (htext : '(' :: '?' :: rest = c :: cs)
    obtain rfl : opensNamed rest = captures := h
    exact nextToken_special rest
  | reference digits =>
    cases (htext : '\\' :: (digits ++ rest) = c :: cs)
    obtain ⟨e,es,rfl,he,hes⟩ := h.1.exists_cons
    obtain ⟨htake,hdrop⟩ := no_digits h.2
    have hnext := nextToken_reference he (es ++ rest)
    rwa [List.takeWhile_append_of_pos hes,List.dropWhile_append_of_pos hes,htake,hdrop,List.append_nil] at hnext
  | escape d =>
    cases (htext : '\\' :: d :: rest = c :: cs)
    exact nextToken_escape h.1 h.2 rest

/-- What the light scan finds first stands before what it leaves. -/
lemma nextToken_standsBefore (c : Char) (rest : List Char) :
    (nextToken c rest).1.StandsBefore (nextToken c rest).2 ∧
      (nextToken c rest).1.text ++ (nextToken c rest).2 = c :: rest := by
  unfold nextToken
  split
  · split
    · rename_i body after hset
      obtain rfl := setBody?_text hset
      exact ⟨hset,by simp [Token.text]⟩
    · rename_i hset
      exact ⟨⟨by decide,fun _ => hset,fun h => absurd h (by decide)⟩,rfl⟩
  · exact ⟨rfl,rfl⟩
  · rename_i hmark
    refine ⟨fun hhead => ?_,rfl⟩
    obtain ⟨cs,rfl⟩ := List.head?_eq_some_iff.mp hhead
    exact hmark cs rfl
  · rename_i d rest
    split
    · rename_i hd
      have hd : startsReference d = true := hd
      have hdigit : d.isDigit = true := (Bool.and_eq_true_iff.mp (startsReference_eq d ▸ hd)).1
      refine ⟨⟨⟨hd,fun e he => ?_⟩,no_digit_dropWhile rest⟩,?_⟩
      · rcases List.mem_cons.mp he with rfl | he
        · exact hdigit
        · exact List.all_eq_true.mp List.all_takeWhile e he
      · simp [Token.text]
    · rename_i hd
      have hd : startsReference d = false := by simpa [startsReference] using hd
      split
      · rename_i hline
        subst hline
        exact ⟨⟨by decide,fun h => absurd h (by decide),fun _ => rfl⟩,rfl⟩
      · rename_i hline
        exact ⟨⟨hd,hline⟩,rfl⟩
  · rename_i hbracket hparen _ hslash
    refine ⟨⟨?_,?_,?_⟩,rfl⟩
    · rintro rfl
      exact hparen rfl
    · rintro rfl
      exact absurd rfl hbracket
    · rintro rfl
      cases rest with
      | nil => rfl
      | cons d rest => exact absurd rfl (hslash d rest rfl)

/-- Texts as the light scan takes them: nothing, or a token before a text. -/
@[elab_as_elim] theorem scan_induction {motive : List Char → Prop} (nil : motive [])
    (token : ∀ (t : Token) (rest : List Char), t.StandsBefore rest → motive rest → motive (t.text ++ rest))
    (cs : List Char) : motive cs := by
  induction hn : cs.length using Nat.strongRecOn generalizing cs with
  | _ n ih =>
    cases cs with
    | nil => exact nil
    | cons c rest =>
      obtain ⟨hstands,htext⟩ := nextToken_standsBefore c rest
      have hlen := nextToken_length c rest
      rw [List.length_cons] at hn
      exact htext ▸ token _ _ hstands (ih _ (by omega) _ rfl)

lemma tokensOf_text (h : t.StandsBefore rest) : tokensOf (t.text ++ rest) = t :: tokensOf rest := by
  cases htext : t.text ++ rest with
  | nil => exact absurd (List.append_eq_nil_iff.mp htext).1 t.text_ne_nil
  | cons c cs => rw [tokensOf_cons,nextToken_text h htext]

section Closed

lemma opensNamed_cons (c : Char) (cs : List Char) : opensNamed (c :: cs) =
    ((c == 'P' && cs.head? == some '<') || (c == '<' && cs.head? != some '=' && cs.head? != some '!')) := by
  unfold opensNamed
  split
  all_goals simp_all [List.head?_eq_some_iff]

/-- A token is found also where a parenthesis closes what follows it, if it waits neither for the end of a set nor for
a character. -/
lemma Token.StandsBefore.append (h : t.StandsBefore rest) (hbracket : t ≠ .plain '[')
    (hslash : t = .plain '\\' → rest ≠ []) (tail : List Char) : t.StandsBefore (rest ++ ')' :: tail) := by
  have hhead : (rest ++ ')' :: tail).head? = some (rest.head?.getD ')') := by
    cases rest <;> rfl
  cases t with
  | plain d =>
    refine ⟨h.1,fun hd => absurd (congrArg Token.plain hd) hbracket,fun hd => ?_⟩
    obtain ⟨e,es,rfl⟩ := List.exists_cons_of_ne_nil (hslash (congrArg Token.plain hd))
    exact h.2.2 hd
  | set body =>
    exact setBody?_of_append h _
  | group =>
    change (rest ++ ')' :: tail).head? ≠ some '?'
    rw [hhead]
    cases rest with
    | nil => decide
    | cons e es => exact h
  | special captures =>
    refine Eq.trans ?_ h
    cases rest with
    | nil => rfl
    | cons e es =>
      rw [List.cons_append,opensNamed_cons,opensNamed_cons]
      cases es with
      | nil => rfl
      | cons f fs => rfl
  | reference digits =>
    refine ⟨h.1,?_⟩
    rw [hhead]
    cases rest with
    | nil => rfl
    | cons e es => exact h.2
  | escape d => exact h

/-- A parenthesis that closes a text leaves its tokens as they are, if none of them waits for more. -/
lemma tokensOf_append_paren (hbracket : Token.plain '[' ∉ tokensOf cs)
    (hslash : (tokensOf cs).getLast? ≠ some (.plain '\\')) (tail : List Char) :
    tokensOf (cs ++ ')' :: tail) = tokensOf cs ++ .plain ')' :: tokensOf tail := by
  induction cs using scan_induction with
  | nil => exact tokensOf_cons ')' tail
  | token t rest h ih =>
    rw [tokensOf_text h] at hbracket hslash ⊢
    obtain ⟨hne,hmem⟩ := not_or.mp (fun h => hbracket (List.mem_cons.mpr h))
    have hstands := h.append (Ne.symm hne) ?_ tail
    · rw [List.append_assoc,tokensOf_text hstands,ih hmem ?_]
      · rfl
      · intro hlast
        exact hslash (by rw [List.getLast?_cons,hlast]; rfl)
    · rintro rfl rfl
      exact hslash rfl

end Closed

end Highlight.Rules
