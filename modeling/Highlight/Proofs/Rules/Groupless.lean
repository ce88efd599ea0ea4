import Highlight.Proofs.Rules.Alternated

/-!
Patterns that may be joined by bars in any number: they leave the flags as they were, name no group, and
either none of them has a group or none refers to one. Patterns without groups are of this kind.
-/
namespace Highlight.Regex

/-- Tokens that open a group or change the flags. -/
def Lexeme.opens : Lexeme → Bool
  | .flags _ | .atomic | .look .. | .capture _ | .plain _ => true
  | _ => false

/-- Whether a reader comes to an opening parenthesis that is neither escaped nor in brackets. -/
def Reader.meetsGroup : Nat → Reader → List Char → Bool
  | 0, _, _ => false
  | n + 1, r, cs =>
    match skipBlanks r.flags.extended cs with
    | .ok (c :: rest) =>
      c == '(' ||
        match r.readToken c rest with
        | .ok (r,rest) => meetsGroup n r rest
        | .error _ => false
    | _ => false

/-- A reader that has opened no group and has not changed its flags. -/
structure Reader.Ungrouped (f : Flags) (r : Reader) : Prop where
  outer : r.outer = []
  groups : r.groups = 0
  names : r.names = []
  flags : r.flags = f

namespace Reader.Ungrouped

variable {f : Flags} {r r' : Reader} {x : Lexeme}

lemma of_eq (h : r.Ungrouped f) (houter : r'.outer = r.outer) (hgroups : r'.groups = r.groups)
    (hnames : r'.names = r.names) (hflags : r'.flags = r.flags) : r'.Ungrouped f :=
  ⟨houter.trans h.outer,hgroups.trans h.groups,hnames.trans h.names,hflags.trans h.flags⟩

lemma flush (h : r.Ungrouped f) : r.flush.Ungrouped f :=
  h.of_eq r.flush_outer r.flush_groups r.flush_names r.flush_flags

lemma push (h : r.Ungrouped f) (p : Piece) : (r.push p).Ungrouped f :=
  h.flush.of_eq rfl rfl rfl rfl

lemma refer {n : Nat} (h : r.Ungrouped f) (hr : r.refer n = .ok r') : r'.Ungrouped f := by
  obtain ⟨-,rfl⟩ := eq_push_of_refer hr
  have hnoted : ({ r with referenced := n :: r.referenced } : Reader).Ungrouped f :=
    h.of_eq rfl rfl rfl rfl
  exact hnoted.push _

/-- Other tokens than those that open a group leave it so. -/
lemma apply (h : r.Ungrouped f) (hx : x.opens = false) (hr : r.apply x = .ok r') : r'.Ungrouped f := by
  cases x with
  | piece p =>
    obtain rfl := Except.ok.inj hr
    exact h.push p
  | bar =>
    obtain rfl := Except.ok.inj hr
    exact h.flush.of_eq rfl rfl rfl rfl
  | close =>
    have hr : r.close = .ok r' := hr
    rw [Reader.close,h.outer] at hr
    cases hr
  | rounds least most greedy possessive =>
    obtain ⟨piece,rfl⟩ := exists_flush_of_repeatPiece hr
    exact flush (h.of_eq rfl rfl rfl rfl)
  | numberRef n =>
    have hnumbered : ({ r with numbered := true } : Reader).Ungrouped f := h.of_eq rfl rfl rfl rfl
    exact hnumbered.refer hr
  | nameRef name =>
    obtain ⟨n,hn⟩ := Within.refer_of_referByName hr
    exact h.refer hn
  | _ => cases hx

end Reader.Ungrouped
end Highlight.Regex

namespace Highlight.Rules

open Regex

variable {ic grouped : Bool} {own inherited source : String} {r r' : Reader} {x : Lexeme} {f : Flags}
  {n m : Nat} {cs cs' : List Char}

section Tokens

lemma lexBackslash_opens (h : lexBackslash f cs = .ok (x,cs')) : x.opens = false := by
  unfold lexBackslash at h
  split at h
  · cases h
  · unfold lexNameRef at h
    split at h
    · obtain ⟨rfl,-⟩ := Prod.mk.inj (Except.ok.inj h)
      rfl
    · cases h
  · cases h
  · obtain ⟨rfl,-⟩ := Prod.mk.inj (Except.ok.inj h)
    rfl
  · obtain ⟨rfl,-⟩ := Prod.mk.inj (Except.ok.inj h)
    rfl
  · obtain ⟨rfl,-⟩ := Prod.mk.inj (Except.ok.inj h)
    rfl
  · obtain ⟨rfl,-⟩ := Prod.mk.inj (Except.ok.inj h)
    rfl
  · unfold lexEscape at h
    split at h
    · split at h
      · obtain ⟨rfl,-⟩ := Prod.mk.inj (Except.ok.inj h)
        rfl
      · cases h
    · obtain ⟨e,-,heq⟩ := except_map_eq_ok.mp h
      obtain ⟨rfl,-⟩ := Prod.mk.inj heq
      rfl

/-- Only a parenthesis opens a group. -/
lemma lexeme_opens {pending : Bool} {c : Char} (h : lexeme f pending c cs = .ok (x,cs'))
    (hc : c ≠ '(') : x.opens = false := by
  have hrounds : ∀ {least : Nat} {most : Option Nat} {cs₁ : List Char},
      lexRounds f least most cs₁ = .ok (x,cs') → x.opens = false := by
    intro least most cs₁ h
    obtain ⟨cs₂,-,h⟩ := except_bind_eq_ok.mp h
    obtain ⟨rfl,-⟩ := Prod.mk.inj (Except.ok.inj h)
    rfl
  have htoken : ∀ {y : Lexeme} {cs₁ : List Char}, (Except.ok (y,cs₁) : LexResult) = .ok (x,cs') →
      y.opens = false → x.opens = false := by
    intro y cs₁ h hy
    obtain ⟨rfl,-⟩ := Prod.mk.inj (Except.ok.inj h)
    exact hy
  unfold lexeme at h
  split at h
  · exact htoken h rfl
  · exact htoken h rfl
  · exact hrounds h
  · exact hrounds h
  · exact hrounds h
  · split at h
    · split at h
      · exact hrounds h
      · exact htoken h rfl
    · exact htoken h rfl
  · exact absurd rfl hc
  · exact lexBackslash_opens h
  · obtain ⟨⟨s,rest⟩,-,h⟩ := except_bind_eq_ok.mp h
    exact htoken h rfl
  · exact htoken h rfl
  · exact htoken h rfl
  · exact htoken h rfl
  · exact htoken h rfl

end Tokens

/-- A reader that meets no group opens none. -/
lemma ungrouped_readAll (hr : r.Ungrouped f) (h : r.readAll n cs = .ok r') (hm : cs.length < m)
    (hmeets : r.meetsGroup m cs = false) : r'.Ungrouped f := by
  induction n generalizing r cs m with
  | zero => exact Except.ok.inj h ▸ hr
  | succ n ih =>
    obtain ⟨m,rfl⟩ := Nat.exists_eq_add_one_of_ne_zero (Nat.ne_of_gt (Nat.zero_lt_of_lt hm))
    rcases Reader.readAll_succ_eq_ok.mp h with
      ⟨-,rfl⟩ | ⟨c,rest,x,r₁,rest₁,hs,hdepth,hlex,happly,h⟩
    · exact hr
    · have htoken : r.readToken c rest = .ok (r₁,rest₁) := readToken_eq_ok.mpr ⟨hdepth,x,hlex,happly⟩
      rw [Reader.meetsGroup,hs] at hmeets
      dsimp only at hmeets
      rw [htoken] at hmeets
      obtain ⟨hc,hmeets⟩ := Bool.or_eq_false_iff.mp hmeets
      have hlen := (skipBlanks_skipped hs).suffix.length_le
      have hlen₁ := (lexeme_reads hlex).1.length_le
      rw [List.length_cons] at hlen
      exact ih (hr.apply (lexeme_opens hlex (by simpa using hc)) happly) h (by omega) hmeets

/-- A pattern without groups. -/
def Groupless (ignoreCase : Bool) (source : String) : Prop :=
  (afterFlags (ruleFlags ignoreCase)).meetsGroup (source.toList.length + 1) source.toList = false

instance : Decidable (Groupless ic source) := inferInstanceAs (Decidable (_ = _))

/-- A pattern that may be joined with others like it, which all have no group or all have no
reference. -/
structure SelfContained (ignoreCase grouped : Bool) (source : String) : Prop where
  compiles : ∃ g, Regex.compileRule source ignoreCase = .ok g
  flags : KeepsFlags ignoreCase source
  names : ∀ r, readRule source ignoreCase = .ok r → r.names = []
  apart : ∀ r, readRule source ignoreCase = .ok r →
    if grouped then r.referenced = [] else r.groups = 0

namespace SelfContained

/-- A pattern without groups can be joined with others without groups. -/
theorem of_groupless (hc : ∃ g, Regex.compileRule source ic = .ok g) (h : Groupless ic source) :
    SelfContained ic false source := by
  have hread : ∀ r, readRule source ic = .ok r → r.Ungrouped (ruleFlags ic) := by
    intro r hr
    obtain ⟨n,-,hread⟩ := readRule_eq source ic
    exact ungrouped_readAll ⟨rfl,rfl,rfl,rfl⟩ (hread ▸ hr) (Nat.lt_succ_self _) h
  refine ⟨hc,?_,fun r hr => (hread r hr).names,fun r hr => (hread r hr).groups⟩
  obtain ⟨g,hg⟩ := hc
  obtain ⟨r,hr,-⟩ := except_bind_eq_ok.mp ((compileRule_eq source ic).symm.trans hg)
  rw [KeepsFlags,hr]
  exact congrArg some (hread r hr).flags

lemma beside {a b : Reader} (h : SelfContained ic grouped own) (h' : SelfContained ic grouped inherited)
    (ha : readRule own ic = .ok a) (hb : readRule inherited ic = .ok b) : Beside a b where
  references := by
    have ha := h.apart a ha
    have hb := h'.apart b hb
    cases grouped with
    | true => exact .inr hb
    | false => exact .inl ha
  names := .inr ⟨h.names a ha,h'.names b hb⟩

lemma joinable (h : SelfContained ic grouped own) (h' : SelfContained ic grouped inherited) :
    Joinable own inherited ic :=
  ⟨h.compiles,h'.compiles,h.flags,fun _ _ => h.beside h'⟩

/-- The joined pattern is of the same kind. -/
theorem barred (h : SelfContained ic grouped own) (h' : SelfContained ic grouped inherited) :
    SelfContained ic grouped (own ++ "|" ++ inherited) := by
  obtain ⟨joined,hjoined,-⟩ := exists_barred (h.joinable h')
  obtain ⟨g,hg⟩ := h.compiles
  obtain ⟨a,-,-,ha,houter,-⟩ := exists_reader hg
  obtain ⟨g',hg'⟩ := h'.compiles
  obtain ⟨b,-,-,hb,-⟩ := exists_reader hg'
  have hflags : ∀ {source : String} {r : Reader}, KeepsFlags ic source → readRule source ic = .ok r →
      r.flags = ruleFlags ic := by
    intro source r hkeeps hr
    rw [KeepsFlags,hr] at hkeeps
    exact Option.some.inj hkeeps
  obtain ⟨b',hflush,hread⟩ := readRule_barred ha (hflags h.flags ha) houter hb (h.beside h' ha hb)
  have hall : ∀ {P : Reader → Prop}, P ((afterBar a).embed b') →
      ∀ r, readRule (own ++ "|" ++ inherited) ic = .ok r → P r :=
    fun hP r hr => Except.ok.inj (hread.symm.trans hr) ▸ hP
  refine ⟨⟨joined,hjoined⟩,?_,hall ?_,hall ?_⟩
  · have hb' : b'.flags = ruleFlags ic := by
      rw [← b'.flush_flags,hflush,b.flush_flags,hflags h'.flags hb]
    rw [KeepsFlags,hread]
    exact congrArg some hb'
  · have hb' : b'.names = [] := by
      rw [← b'.flush_names,hflush,b.flush_names,h'.names b hb]
    simp only [Enclosure.embed,afterBar,hb',h.names a ha,List.map_nil,List.append_nil]
  · have ha := h.apart a ha
    have hb := h'.apart b hb
    cases grouped with
    | true =>
      have hb' : b'.referenced = [] := by
        rw [← b'.flush_referenced,hflush,b.flush_referenced]
        exact hb
      have ha : a.referenced = [] := ha
      have hjoined : b'.referenced.map (shiftGroup a.groups) ++ a.referenced = [] := by
        rw [hb',ha]
        rfl
      exact hjoined
    | false =>
      have hb' : b'.groups = 0 := by
        rw [← b'.flush_groups,hflush,b.flush_groups]
        exact hb
      have ha : a.groups = 0 := ha
      have hjoined : b'.groups + a.groups = 0 := by
        rw [hb',ha]
      exact hjoined

end SelfContained

end Highlight.Rules
