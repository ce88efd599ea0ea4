import Highlight.Proofs.Regex.Caseless
import Highlight.Proofs.Rules.Alternated

/-!
Patterns that ignore case throughout. If the flag for it holds at each token that is read and no token
refers back to a group, no set of the pattern tells capital ASCII letters from small ones.
-/
namespace Highlight.Regex

/-- What an escape stands for does not tell letters by their case, if it is a class. -/
def Escaped.Caseless : Escaped → Prop
  | .char _ => True
  | .class s => s.Caseless

/-- The piece that a token stands for, if there is one, does not tell letters by their case. -/
def Lexeme.Caseless : Lexeme → Prop
  | piece p => p.pattern.Caseless
  | _ => True

lemma Lexeme.Caseless.of_isPiece {x : Lexeme} (h : x.isPiece = false) : x.Caseless := by
  cases x with
  | piece p => cases h
  | _ => trivial

/-- Whether a reader ignores case at each token that it comes to, and no token refers back to a group. -/
def Reader.ignoresCase : Nat → Reader → List Char → Bool
  | 0, _, _ => true
  | n + 1, r, cs =>
    match skipBlanks r.flags.extended cs with
    | .ok (c :: rest) =>
      r.flags.fold &&
        match lexeme r.flags r.pending.isSome c rest with
        | .ok (x,rest) =>
          !x.refers &&
            match r.apply x with
            | .ok r => ignoresCase n r rest
            | .error _ => true
        | .error _ => true
    | _ => true

end Highlight.Regex

namespace Highlight.Rules

open Regex

variable {f : Flags} {x : Lexeme} {c : Char} {cs cs' : List Char} {pending : Bool} {r r' : Reader} {n m : Nat}

section Tokens

/-- Sets in brackets are closed under case before they are complemented. -/
lemma readSet_caseless {s : CharSet} (h : readSet true cs = .ok (s,cs')) : s.Caseless := by
  obtain ⟨⟨tokens,rest⟩,-,h⟩ := except_bind_eq_ok.mp h
  obtain ⟨⟨s',left⟩,hs,h⟩ := except_bind_eq_ok.mp h
  dsimp only at h
  split at h
  · obtain ⟨rfl,-⟩ := Prod.mk.inj (Except.ok.inj h)
    obtain ⟨⟨items,tokens'⟩,-,hs⟩ := except_bind_eq_ok.mp hs
    obtain ⟨rfl,-⟩ := Prod.mk.inj (Except.ok.inj hs)
    exact (CharSet.Caseless.folded items).complIf _
  · cases h

lemma simpleEscape_caseless {e : Escaped} (h : simpleEscape c = .ok e) : e.Caseless := by
  have hclass : ∀ {s : CharSet}, s.Caseless → (Except.ok (.class s) : Except PatternError Escaped) = .ok e →
      e.Caseless :=
    fun hs h => Except.ok.inj h ▸ hs
  have hchar : ∀ {d : Char}, (Except.ok (.char d) : Except PatternError Escaped) = .ok e → e.Caseless :=
    fun h => Except.ok.inj h ▸ trivial
  unfold simpleEscape at h
  split at h
  · exact hclass .digit h
  · exact hclass (.compl .digit) h
  · exact hclass .space h
  · exact hclass (.compl .space) h
  · exact hclass .word h
  · exact hclass (.compl .word) h
  · exact hclass .hexDigits h
  · exact hclass (.compl .hexDigits) h
  · exact hchar h
  · exact hchar h
  · exact hchar h
  · exact hchar h
  · exact hchar h
  · exact hchar h
  · exact hchar h
  · exact hchar h
  · split at h
    · cases h
    · exact hchar h

lemma readEscape_caseless {e : Escaped} (h : readEscape true c cs = .ok (e,cs')) : e.Caseless := by
  unfold readEscape at h
  split at h
  · obtain ⟨⟨d,rest⟩,-,heq⟩ := except_map_eq_ok.mp h
    obtain ⟨rfl,-⟩ := Prod.mk.inj heq
    trivial
  · split at h
    · obtain ⟨⟨name,rest⟩,-,h⟩ := except_bind_eq_ok.mp h
      dsimp only at h
      split at h
      · rename_i s _
        obtain ⟨rfl,-⟩ := Prod.mk.inj (Except.ok.inj h)
        exact (CharSet.Caseless.folded s).complIf _
      · cases h
    · obtain ⟨e',he,heq⟩ := except_map_eq_ok.mp h
      obtain ⟨rfl,-⟩ := Prod.mk.inj heq
      exact simpleEscape_caseless he

variable (hf : f.fold = true)
include hf

lemma ofChar_caseless (c : Char) : (Piece.ofChar f c).pattern.Caseless := by
  rw [Piece.ofChar,hf]
  exact CharSet.Caseless.folded (.single c)

lemma ofEscaped_caseless {e : Escaped} (he : e.Caseless) : (Piece.ofEscaped f e).pattern.Caseless := by
  cases e with
  | char c => exact ofChar_caseless hf c
  | «class» s => exact he

lemma lexBackslash_caseless (h : lexBackslash f cs = .ok (x,cs')) : x.Caseless := by
  unfold lexBackslash at h
  split at h
  · cases h
  · exact .of_isPiece (lexNameRef_isPiece h)
  · cases h
  · obtain ⟨rfl,-⟩ := Prod.mk.inj (Except.ok.inj h)
    trivial
  · obtain ⟨rfl,-⟩ := Prod.mk.inj (Except.ok.inj h)
    trivial
  · obtain ⟨rfl,-⟩ := Prod.mk.inj (Except.ok.inj h)
    trivial
  · obtain ⟨rfl,-⟩ := Prod.mk.inj (Except.ok.inj h)
    trivial
  · unfold lexEscape at h
    split at h
    · split at h
      · obtain ⟨rfl,-⟩ := Prod.mk.inj (Except.ok.inj h)
        trivial
      · cases h
    · obtain ⟨⟨e,rest⟩,he,heq⟩ := except_map_eq_ok.mp h
      obtain ⟨rfl,-⟩ := Prod.mk.inj heq
      rw [hf] at he
      exact ofEscaped_caseless hf (readEscape_caseless he)

/-- Where case is ignored, no token tells letters by their case. -/
theorem lexeme_caseless (h : lexeme f pending c cs = .ok (x,cs')) : x.Caseless := by
  have hrounds : ∀ {least : Nat} {most : Option Nat} {cs₁ : List Char},
      lexRounds f least most cs₁ = .ok (x,cs') → x.Caseless := by
    intro least most cs₁ h
    obtain ⟨cs₂,-,h⟩ := except_bind_eq_ok.mp h
    obtain ⟨rfl,-⟩ := Prod.mk.inj (Except.ok.inj h)
    trivial
  have htoken : ∀ {y : Lexeme} {cs₁ : List Char}, (Except.ok (y,cs₁) : LexResult) = .ok (x,cs') →
      y.Caseless → x.Caseless := by
    intro y cs₁ h hy
    obtain ⟨rfl,-⟩ := Prod.mk.inj (Except.ok.inj h)
    exact hy
  unfold lexeme at h
  split at h
  · exact htoken h trivial
  · exact htoken h trivial
  · exact hrounds h
  · exact hrounds h
  · exact hrounds h
  · split at h
    · split at h
      · exact hrounds h
      · exact htoken h (ofChar_caseless hf _)
    · exact htoken h (ofChar_caseless hf _)
  · exact .of_isPiece (lexGroup_isPiece h)
  · exact lexBackslash_caseless hf h
  · obtain ⟨⟨s,rest⟩,hs,h⟩ := except_bind_eq_ok.mp h
    rw [hf] at hs
    exact htoken h (readSet_caseless hs)
  · refine htoken h ?_
    split
    · exact CharSet.Caseless.any
    · exact CharSet.Caseless.notNewline
  · exact htoken h trivial
  · exact htoken h trivial
  · exact htoken h (ofChar_caseless hf _)

end Tokens

/-- Tokens that do not tell letters by their case and do not refer back lead to readers alike. -/
lemma caseless_apply (h : r.All Pattern.Caseless) (hx : x.Caseless) (hrefers : x.refers = false)
    (hr : r.apply x = .ok r') : r'.All Pattern.Caseless := by
  have hP := Pattern.composes_caseless
  cases x with
  | piece p => exact Except.ok.inj hr ▸ h.push hx
  | flags f =>
    have hset : ({ r with flags := f } : Reader).All Pattern.Caseless := ⟨h.pending,h.current,h.outer⟩
    exact Except.ok.inj hr ▸ hset.push (p := .nothing) trivial
  | bar => exact Except.ok.inj hr ▸ h.endBranch hP
  | close => exact h.close hP (fun _ _ _ hp => hp) hr
  | rounds least most greedy possessive => exact h.repeatPiece hP (fun _ => id) hr
  | atomic => exact Except.ok.inj hr ▸ h.openGroup .atomic
  | look behind negated => exact Except.ok.inj hr ▸ h.openGroup (.look behind negated)
  | capture name =>
    have hopened : ∀ groups names, ({ r with groups, names } : Reader).All Pattern.Caseless :=
      fun _ _ => ⟨h.pending,h.current,h.outer⟩
    exact Except.ok.inj hr ▸ (hopened _ _).openGroup _
  | plain inside =>
    have hset : ({ r with flags := inside } : Reader).All Pattern.Caseless := ⟨h.pending,h.current,h.outer⟩
    exact Except.ok.inj hr ▸ hset.openGroup _
  | numberRef n => cases hrefers
  | nameRef name => cases hrefers

/-- All that is read of a text in which case is ignored throughout. -/
lemma caseless_readAll (hr : r.All Pattern.Caseless) (h : r.readAll n cs = .ok r') (hm : cs.length < m)
    (hignores : r.ignoresCase m cs = true) : r'.All Pattern.Caseless := by
  induction n generalizing r cs m with
  | zero => exact Except.ok.inj h ▸ hr
  | succ n ih =>
    obtain ⟨m,rfl⟩ := Nat.exists_eq_add_one_of_ne_zero (Nat.ne_of_gt (Nat.zero_lt_of_lt hm))
    rcases Reader.readAll_succ_eq_ok.mp h with ⟨-,rfl⟩ | ⟨c,rest,x,r₁,rest₁,hs,-,hlex,happly,h⟩
    · exact hr
    · rw [Reader.ignoresCase,hs] at hignores
      dsimp only at hignores
      rw [hlex] at hignores
      dsimp only at hignores
      rw [happly] at hignores
      obtain ⟨hfold,hignores⟩ := Bool.and_eq_true_iff.mp hignores
      obtain ⟨hrefers,hignores⟩ := Bool.and_eq_true_iff.mp hignores
      have hlen := (skipBlanks_skipped hs).suffix.length_le
      have hlen₁ := (lexeme_reads hlex).1.length_le
      rw [List.length_cons] at hlen
      exact ih (caseless_apply hr (lexeme_caseless hfold hlex) (by simpa using hrefers) happly) h (by omega) hignores

/-- A pattern of a case-insensitive grammar that never switches the flag for it off, and does not refer back
to a group. -/
def ignoresCase (source : String) : Bool :=
  (afterFlags (ruleFlags true)).ignoresCase (source.toList.length + 1) source.toList

/-- Such a pattern does not tell letters by their case. -/
theorem caseless_of_compileRule {source : String} {g : Regex} (h : Regex.compileRule source true = .ok g)
    (hignores : ignoresCase source = true) : g.pattern.Caseless := by
  rw [compileRule_eq,except_bind_eq_ok] at h
  obtain ⟨r,hr,h⟩ := h
  obtain ⟨n,-,hread⟩ := readRule_eq source true
  obtain ⟨p,hp,rfl,-⟩ := ofReader_eq_ok.mp h
  have hstart : (afterFlags (ruleFlags true)).All Pattern.Caseless := by
    refine ⟨fun p hp => ?_,⟨nofun,nofun⟩,nofun⟩
    obtain rfl := Option.some.inj hp
    trivial
  have hall := caseless_readAll hstart (hread ▸ hr) (Nat.lt_succ_self _) hignores
  exact (hall.finish Pattern.composes_caseless hp).settle r.referenced

example : ignoresCase "[a-f]+(?:x|\\PL)" = true := by decide +kernel

end Highlight.Rules
