import Highlight.Proofs.Regex.Reached
import Highlight.Proofs.Rules.BarredTokens
import Highlight.Proofs.Rules.Enclosed

/-!
Two texts with a bar between them. After the bar the reader goes through the second text as it does
through that text alone, if no reference in it and no name gets another meaning by the first.
-/
namespace Highlight.Regex.Lexeme

/-- Whether a token stands for a piece. -/
def isPiece : Lexeme → Bool
  | piece _ => true
  | _ => false

lemma OpensNone.of_isPiece {x : Lexeme} (h : x.isPiece = false) : x.OpensNone := by
  cases x with
  | piece p => cases h
  | _ => trivial

end Highlight.Regex.Lexeme

namespace Highlight.Rules

open Regex

section Tokens

variable {f : Flags} {pending : Bool} {x : Lexeme} {c : Char} {n : Nat} {cs cs' : List Char}

lemma lexFlags_isPiece {off : Bool} {count : Nat} (h : lexFlags n f off count cs = .ok (x,cs')) :
    x.isPiece = false := by
  induction n generalizing f off count cs with
  | zero => cases h
  | succ n ih =>
    rw [lexFlags,except_bind_eq_ok] at h
    obtain ⟨cs₁,-,h⟩ := h
    cases cs₁ with
    | nil => cases h
    | cons c rest =>
      dsimp only at h
      split at h
      · split at h
        · cases h
        · exact ih h
      · split at h
        · split at h
          · cases h
          · obtain ⟨rfl,-⟩ := Prod.mk.inj (Except.ok.inj h)
            rfl
        · split at h
          · split at h
            · cases h
            · obtain ⟨rfl,-⟩ := Prod.mk.inj (Except.ok.inj h)
              rfl
          · split at h
            · exact ih h
            · cases h

lemma lexNamedGroup_isPiece (h : lexNamedGroup cs = .ok (x,cs')) : x.isPiece = false := by
  unfold lexNamedGroup at h
  split at h
  · obtain ⟨rfl,-⟩ := Prod.mk.inj (Except.ok.inj h)
    rfl
  · cases h

lemma lexNameRef_isPiece {closing : Char} (h : lexNameRef closing cs = .ok (x,cs')) :
    x.isPiece = false := by
  unfold lexNameRef at h
  split at h
  · obtain ⟨rfl,-⟩ := Prod.mk.inj (Except.ok.inj h)
    rfl
  · cases h

lemma lexGroup_isPiece (h : lexGroup f cs = .ok (x,cs')) : x.isPiece = false := by
  obtain ⟨cs₁,-,h⟩ := except_bind_eq_ok.mp h
  split at h
  · unfold lexSpecial at h
    split at h
    · obtain ⟨rfl,-⟩ := Prod.mk.inj (Except.ok.inj h)
      rfl
    · obtain ⟨rfl,-⟩ := Prod.mk.inj (Except.ok.inj h)
      rfl
    · obtain ⟨rfl,-⟩ := Prod.mk.inj (Except.ok.inj h)
      rfl
    · obtain ⟨rfl,-⟩ := Prod.mk.inj (Except.ok.inj h)
      rfl
    · exact lexNamedGroup_isPiece h
    · exact lexNamedGroup_isPiece h
    · exact lexNameRef_isPiece h
    · obtain ⟨rfl,-⟩ := Prod.mk.inj (Except.ok.inj h)
      rfl
    · cases h
    · exact lexFlags_isPiece h
  · obtain ⟨rfl,-⟩ := Prod.mk.inj (Except.ok.inj h)
    rfl

lemma lexBackslash_opensNone (h : lexBackslash f cs = .ok (x,cs')) : x.OpensNone := by
  unfold lexBackslash at h
  split at h
  · cases h
  · exact .of_isPiece (lexNameRef_isPiece h)
  · cases h
  · obtain ⟨rfl,-⟩ := Prod.mk.inj (Except.ok.inj h)
    exact rfl
  · obtain ⟨rfl,-⟩ := Prod.mk.inj (Except.ok.inj h)
    exact rfl
  · obtain ⟨rfl,-⟩ := Prod.mk.inj (Except.ok.inj h)
    exact rfl
  · obtain ⟨rfl,-⟩ := Prod.mk.inj (Except.ok.inj h)
    exact rfl
  · unfold lexEscape at h
    split at h
    · split at h
      · obtain ⟨rfl,-⟩ := Prod.mk.inj (Except.ok.inj h)
        trivial
      · cases h
    · obtain ⟨r,-,heq⟩ := except_map_eq_ok.mp h
      obtain ⟨rfl,-⟩ := Prod.mk.inj heq
      have hsound : (Lexeme.piece (.ofEscaped f r.1)).Sound false := ofEscaped_sound f r.1
      exact hsound.opensNone

/-- No token stands for a piece with a group or a reference in it. -/
lemma lexeme_opensNone (h : lexeme f pending c cs = .ok (x,cs')) : x.OpensNone := by
  have hrounds : ∀ {least : Nat} {most : Option Nat} {cs₁ : List Char},
      lexRounds f least most cs₁ = .ok (x,cs') → x.OpensNone := by
    intro least most cs₁ h
    obtain ⟨cs₂,-,h⟩ := except_bind_eq_ok.mp h
    obtain ⟨rfl,-⟩ := Prod.mk.inj (Except.ok.inj h)
    trivial
  have hpiece : ∀ {p : Piece} {cs₁ : List Char},
      (Except.ok (Lexeme.piece p,cs₁) : LexResult) = .ok (x,cs') → p.pattern.isAtom = true → x.OpensNone := by
    intro p cs₁ h hp
    obtain ⟨rfl,-⟩ := Prod.mk.inj (Except.ok.inj h)
    exact hp
  unfold lexeme at h
  split at h
  · obtain ⟨rfl,-⟩ := Prod.mk.inj (Except.ok.inj h)
    trivial
  · obtain ⟨rfl,-⟩ := Prod.mk.inj (Except.ok.inj h)
    trivial
  · exact hrounds h
  · exact hrounds h
  · exact hrounds h
  · split at h
    · split at h
      · exact hrounds h
      · exact hpiece h rfl
    · exact hpiece h rfl
  · exact .of_isPiece (lexGroup_isPiece h)
  · exact lexBackslash_opensNone h
  · obtain ⟨⟨s,rest⟩,-,h⟩ := except_bind_eq_ok.mp h
    exact hpiece h rfl
  · exact hpiece h rfl
  · exact hpiece h rfl
  · exact hpiece h rfl
  · exact hpiece h rfl

end Tokens

end Highlight.Rules

namespace Highlight.Regex

/-- Only a group has a name, and only a reference may be by number. -/
structure Reader.Coherent (r : Reader) : Prop where
  names : r.groups = 0 → r.names = []
  numbered : r.referenced = [] → r.numbered = false

/-- What a reader has noted of names and references, it keeps. -/
structure Reader.Grows (r r' : Reader) : Prop where
  names : r.names <:+ r'.names
  referenced : r.referenced <:+ r'.referenced
  numbered : r.numbered = true → r'.numbered = true
  coherent : r.Coherent → r'.Coherent

namespace Reader.Grows

variable {r r' r'' : Reader}

lemma of_eq (hgroups : r'.groups = r.groups) (hnames : r'.names = r.names)
    (hnumbered : r'.numbered = r.numbered) (hreferenced : r'.referenced = r.referenced) :
    r.Grows r' where
  names := hnames ▸ List.suffix_refl _
  referenced := hreferenced ▸ List.suffix_refl _
  numbered h := hnumbered.trans h
  coherent h := ⟨fun hg => hnames.trans (h.names (hgroups ▸ hg)),
    fun hr => hnumbered.trans (h.numbered (hreferenced ▸ hr))⟩

lemma refl (r : Reader) : r.Grows r := of_eq rfl rfl rfl rfl

/-- Flags, pieces and open groups do not matter. -/
lemma rest (r : Reader) (flags : Flags) (pending : Option Piece) (current : OpenGroup)
    (outer : List OpenGroup) : r.Grows { r with flags, pending, current, outer } :=
  of_eq rfl rfl rfl rfl

lemma trans (h : r.Grows r') (h' : r'.Grows r'') : r.Grows r'' where
  names := h.names.trans h'.names
  referenced := h.referenced.trans h'.referenced
  numbered hn := h'.numbered (h.numbered hn)
  coherent hc := h'.coherent (h.coherent hc)

lemma flush (r : Reader) : r.Grows r.flush :=
  of_eq r.flush_groups r.flush_names r.flush_numbered r.flush_referenced

lemma push (r : Reader) (p : Piece) : r.Grows (r.push p) := (flush r).trans (of_eq rfl rfl rfl rfl)

lemma openGroup (r : Reader) (k : GroupKind) : r.Grows (r.openGroup k) :=
  (flush r).trans (of_eq rfl rfl rfl rfl)

lemma openCapture (r : Reader) (name : Option String) : r.Grows (r.openCapture name) := by
  have hgrown : ∀ names, r.names <:+ names →
      r.Grows ({ r with groups := r.groups + 1, names } : Reader) :=
    fun names hnames => ⟨hnames,List.suffix_refl _,id,
      fun h => ⟨fun hg => absurd hg (Nat.succ_ne_zero _),h.numbered⟩⟩
  cases name with
  | none => exact (hgrown r.names (List.suffix_refl _)).trans (openGroup _ (.capture _))
  | some name =>
    exact (hgrown ((name,r.groups + 1) :: r.names) (List.suffix_cons _ _)).trans
      (openGroup _ (.capture _))

/-- A reference, which may be by number. -/
lemma refer {n : Nat} {numbered : Bool} (hn : r.numbered = true → numbered = true)
    (h : ({ r with numbered } : Reader).refer n = .ok r') : r.Grows r' ∧ r'.referenced ≠ [] := by
  obtain ⟨-,rfl⟩ := eq_push_of_refer h
  have hnoted : r.Grows ({ r with numbered, referenced := n :: r.referenced } : Reader) :=
    ⟨List.suffix_refl _,List.suffix_cons _ _,hn,fun hc => ⟨hc.names,fun hr => by cases hr⟩⟩
  refine ⟨hnoted.trans (push _ ⟨.backref n,true⟩),?_⟩
  have hreferenced := Reader.flush_referenced
    ({ r with numbered, referenced := n :: r.referenced } : Reader)
  exact hreferenced ▸ List.cons_ne_nil _ _

lemma repeatPiece {least : Nat} {most : Option Nat} {greedy possessive : Bool}
    (h : r.repeatPiece least most greedy possessive = .ok r') : r.Grows r' := by
  obtain ⟨piece,rfl⟩ := exists_flush_of_repeatPiece h
  exact (rest r r.flags (some piece) r.current r.outer).trans (flush _)

lemma close (h : r.close = .ok r') : r.Grows r' := by
  obtain ⟨parent,outer,f,p,-,-,rfl⟩ := exists_push_of_close h
  exact (rest r f none parent outer).trans (push _ p)

/-- What a token does to the notes of a reader. A token that refers to a group leaves a note of it. -/
lemma apply {x : Lexeme} (h : r.apply x = .ok r') :
    r.Grows r' ∧ (x.refers = true → r'.referenced ≠ []) := by
  cases x with
  | numberRef n =>
    obtain ⟨hgrows,hne⟩ := refer (fun _ => rfl) h
    exact ⟨hgrows,fun _ => hne⟩
  | nameRef name =>
    obtain ⟨n,hn⟩ := Within.refer_of_referByName h
    have hn : ({ r with numbered := r.numbered } : Reader).refer n = .ok r' := hn
    obtain ⟨hgrows,hne⟩ := refer id hn
    exact ⟨hgrows,fun _ => hne⟩
  | piece p =>
    obtain rfl := Except.ok.inj h
    exact ⟨push r p,fun hx => by cases hx⟩
  | flags f =>
    obtain rfl := Except.ok.inj h
    exact ⟨(rest r f r.pending r.current r.outer).trans (push _ .nothing),fun hx => by cases hx⟩
  | bar =>
    obtain rfl := Except.ok.inj h
    exact ⟨(flush r).trans (of_eq rfl rfl rfl rfl),fun hx => by cases hx⟩
  | close => exact ⟨close h,fun hx => by cases hx⟩
  | rounds least most greedy possessive => exact ⟨repeatPiece h,fun hx => by cases hx⟩
  | atomic =>
    obtain rfl := Except.ok.inj h
    exact ⟨openGroup r .atomic,fun hx => by cases hx⟩
  | look behind negated =>
    obtain rfl := Except.ok.inj h
    exact ⟨openGroup r (.look behind negated),fun hx => by cases hx⟩
  | capture name =>
    obtain rfl := Except.ok.inj h
    exact ⟨openCapture r name,fun hx => by cases hx⟩
  | plain inside =>
    obtain rfl := Except.ok.inj h
    exact ⟨(rest r inside r.pending r.current r.outer).trans (openGroup _ (.plain r.flags)),
      fun hx => by cases hx⟩

end Reader.Grows

/-- A step of the reader, if the text has not come to its end. -/
lemma Reader.readAll_succ_eq_ok {r r' : Reader} {n : Nat} {cs : List Char} :
    r.readAll (n + 1) cs = .ok r' ↔ skipBlanks r.flags.extended cs = .ok [] ∧ r' = r ∨
      ∃ c rest x r₁ rest₁, skipBlanks r.flags.extended cs = .ok (c :: rest) ∧
        ¬ (c = '(' && maxDepth ≤ r.outer.length + 1) = true ∧
          lexeme r.flags r.pending.isSome c rest = .ok (x,rest₁) ∧ r.apply x = .ok r₁ ∧
            r₁.readAll n rest₁ = .ok r' := by
  rw [readAll,except_bind_eq_ok]
  constructor
  · rintro ⟨cs₁,hs,h⟩
    cases cs₁ with
    | nil => exact .inl ⟨hs,(Except.ok.inj h).symm⟩
    | cons c rest =>
      obtain ⟨⟨r₁,rest₁⟩,htoken,h⟩ := except_bind_eq_ok.mp h
      obtain ⟨hdepth,x,hlex,happly⟩ := Rules.readToken_eq_ok.mp htoken
      exact .inr ⟨c,rest,x,r₁,rest₁,hs,hdepth,hlex,happly,h⟩
  · rintro (⟨hs,rfl⟩ | ⟨c,rest,x,r₁,rest₁,hs,hdepth,hlex,happly,h⟩)
    · exact ⟨[],hs,rfl⟩
    · refine ⟨c :: rest,hs,?_⟩
      dsimp only
      rw [Rules.readToken_eq_ok.mpr ⟨hdepth,x,hlex,happly⟩]
      exact h

namespace Reader

variable {r r' : Reader} {n : Nat} {cs : List Char}

/-- What holds of a reader at the end of a text, if each token preserves it. -/
theorem readAll_induction {P : Reader → Prop}
    (hstep : ∀ r r' x, x.OpensNone → P r → r.apply x = .ok r' → P r') (hr : P r)
    (h : r.readAll n cs = .ok r') : P r' := by
  induction n generalizing r cs with
  | zero => exact Except.ok.inj h ▸ hr
  | succ n ih =>
    rcases readAll_succ_eq_ok.mp h with ⟨-,rfl⟩ | ⟨c,rest,x,r₁,rest₁,-,-,hlex,happly,h⟩
    · exact hr
    · exact ih (hstep r r₁ x (Rules.lexeme_opensNone hlex) hr happly) h

lemma Grows.readAll (h : r.readAll n cs = .ok r') : r.Grows r' :=
  readAll_induction (P := r.Grows) (fun _ _ _ _ hr happly => hr.trans (Grows.apply happly).1)
    (.refl r) h

lemma Within.readAll (hr : r.Within) (h : r.readAll n cs = .ok r') : r'.Within :=
  readAll_induction (P := Within) (fun _ _ _ hx hr happly => (hr.apply hx happly).1) hr h

end Reader

end Highlight.Regex
