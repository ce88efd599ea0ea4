import Highlight.Proofs.Rules.Nested
import Highlight.Regex.Basic

/-!
A text in a group is read as it is alone: token for token, up to the parenthesis that closes the group. The text
of a rule that is read alone follows inline flags; what the reader takes up for these is no different from
nothing.
-/
namespace Highlight.Rules

open Regex

variable {named : Bool} {e : Enclosure} {r r' : Reader} {c : Char} {cs rest rest' tail : List Char}
  {n m : Nat}

lemma length_stack (e : Enclosure) (gs : List OpenGroup) :
    (e.stack gs).length = gs.length + e.outer.length := by
  induction gs with
  | nil => exact (Nat.zero_add _).symm
  | cons g gs ih =>
    rw [Enclosure.stack,List.length_cons,List.length_cons,ih]
    omega

lemma readToken_eq_ok : r.readToken c rest = .ok (r',rest') ↔
    ¬ (c = '(' && maxDepth ≤ r.outer.length + 1) = true ∧
      ∃ x, lexeme r.flags r.pending.isSome c rest = .ok (x,rest') ∧ r.apply x = .ok r' := by
  unfold Reader.readToken
  constructor
  · intro h
    split at h
    · cases h
    · rename_i hdepth
      obtain ⟨⟨x,rest₁⟩,hlex,h⟩ := except_bind_eq_ok.mp h
      obtain ⟨r₁,happly,h⟩ := except_bind_eq_ok.mp h
      obtain ⟨rfl,rfl⟩ := Prod.mk.inj (Except.ok.inj h)
      exact ⟨hdepth,x,hlex,happly⟩
  · rintro ⟨hdepth,x,hlex,happly⟩
    rw [if_neg hdepth,hlex]
    simp only [bind,Except.bind,happly]
    rfl

lemma inRange_of_apply {o : Nat} {x : Lexeme} (h : r.apply x = .ok r')
    (ho : r.groups + o < UInt64.size) : x.InRange o := by
  cases x with
  | numberRef n =>
    have hn : n ≤ r.groups := (Reader.eq_push_of_refer (r := { r with numbered := true }) h).1
    exact Nat.lt_of_le_of_lt (Nat.add_le_add_right hn o) ho
  | _ => trivial

lemma readAll_nil (hx : r.flags.extended = false) : r.readAll (n + 1) [] = .ok r := by
  rw [Reader.readAll,hx]
  rfl

lemma readAll_cons (hx : r.flags.extended = false) (hn : NoComment (c :: rest)) :
    r.readAll (n + 1) (c :: rest) = r.readToken c rest >>= fun x => x.1.readAll n x.2 := by
  rw [Reader.readAll,hx,skipBlanks_eq hn]
  rfl

/-- A step of the reader, in the group. -/
theorem readToken_inGroup (he : e.Suits named) (hbase : e.outer.length = 1) (h : r.Sound named)
    (hfits : FitsFrom named r.outer.length (c :: rest)) (hr : r.readToken c rest = .ok (r',rest'))
    (hroom : r.groups + e.offset < UInt64.size) :
    r'.Sound named ∧ FitsFrom named r'.outer.length rest' ∧ rest'.length ≤ rest.length ∧
      r'.groups + groupCount rest' = r.groups + groupCount (c :: rest) ∧
        ∀ tail, ∃ rest₁, inGroup e.offset tail (c :: rest) = c :: rest₁ ∧
          (e.embed r).readToken c rest₁ = .ok (e.embed r',inGroup e.offset tail rest') ∧
            (inGroup e.offset tail rest').length ≤ rest₁.length := by
  obtain ⟨-,x,hlex,happly⟩ := readToken_eq_ok.mp hr
  have hx := lexeme_lexes h.extended hfits hlex
  obtain ⟨hs,hgroups,hdepth⟩ := h.apply hx.sound happly
  refine ⟨hs,?_,hx.length_le,?_,fun tail => ?_⟩
  · rw [hdepth]
    exact hx.fits
  · rw [hgroups,hx.count]
    omega
  · obtain ⟨rest₁,htext,hlex₁,hlen⟩ := hx.text e.offset tail (inRange_of_apply happly hroom)
    have hpending : (e.embed r).pending.isSome = r.pending.isSome := Option.isSome_map
    refine ⟨rest₁,htext,?_,hlen⟩
    have hopen : ¬ (c = '(' && maxDepth ≤ (e.embed r).outer.length + 1) = true := by
      simp only [Bool.and_eq_true,decide_eq_true_eq,not_and,Nat.not_le]
      intro hc
      have hlt := hx.depth_lt hc
      have hstack : (e.embed r).outer.length = r.outer.length + e.outer.length :=
        length_stack e r.outer
      have hmax : maxInnerDepth + 2 = maxDepth := rfl
      omega
    refine readToken_eq_ok.mpr ⟨hopen,x.shift e.offset,?_,Enclosure.apply_embed he h hx.sound happly⟩
    rw [hpending]
    exact hlex₁

/-- A text in a group is read as it is alone, up to the end of the group. -/
theorem readAll_inGroup (he : e.Suits named) (hbase : e.outer.length = 1) (h : r.Sound named)
    (hfits : FitsFrom named r.outer.length cs) (hr : r.readAll n cs = .ok r') (hn : cs.length < n)
    (hroom : r.groups + groupCount cs + e.offset < UInt64.size)
    (hm : (inGroup e.offset tail cs).length < m) :
    r'.Sound named ∧ r'.groups = r.groups + groupCount cs ∧ ∃ m', tail.length + 1 < m' ∧
      (e.embed r).readAll m (inGroup e.offset tail cs) = (e.embed r').readAll m' (')' :: tail) := by
  induction n generalizing r cs m with
  | zero => exact absurd hn (Nat.not_lt_zero _)
  | succ n ih =>
    cases cs with
    | nil =>
      rw [readAll_nil h.extended] at hr
      obtain rfl := Except.ok.inj hr
      exact ⟨h,rfl,m,hm,rfl⟩
    | cons c rest =>
      rw [readAll_cons h.extended hfits.noComment,except_bind_eq_ok] at hr
      obtain ⟨⟨r₁,rest₁⟩,htoken,hr⟩ := hr
      have hroom₁ : r.groups + e.offset < UInt64.size := by omega
      obtain ⟨hs,hfits₁,hlen,hgroups,htext⟩ := readToken_inGroup he hbase h hfits htoken hroom₁
      obtain ⟨rest₂,htext,htoken₂,hlen₂⟩ := htext tail
      have hcomment : NoComment (c :: rest₂) := by
        rw [← htext]
        exact hfits.noComment_inGroup
      rw [htext] at hm ⊢
      cases m with
      | zero => exact absurd hm (Nat.not_lt_zero _)
      | succ m =>
        simp only [List.length_cons] at hn hm
        obtain ⟨hs',hgroups',m',hm',hall⟩ := ih (m := m) hs hfits₁ hr (by omega) (by omega) (by omega)
        refine ⟨hs',by omega,m',hm',?_⟩
        have hextended : (e.embed r).flags.extended = false := h.extended
        rw [readAll_cons hextended hcomment,htoken₂]
        exact hall

end Highlight.Rules

namespace Highlight.Rules

open Regex

variable {f : Flags} {r r' : Reader} {c : Char} {cs rest rest' : List Char} {n : Nat} {ic : Bool}

/-- The flags that hold for every rule. -/
def ruleFlags (ignoreCase : Bool) : Flags := { fold := ignoreCase, multiline := true }

/-- A text that is read alone after some flags, by the reader at its end and the pattern. -/
structure ReadsAs (f : Flags) (cs : List Char) (r : Reader) (p : Pattern) : Prop where
  run : ∃ n, cs.length < n ∧ ({ flags := f } : Reader).readAll n cs = .ok r
  outer : r.outer = []
  contents : ∃ branches whole, r.contents = .ok (branches,whole) ∧ whole.pattern = p

/-- After flags, no piece is there to be repeated. -/
def afterFlags (f : Flags) : Reader := { flags := f, pending := some .nothing }

lemma apply_afterFlags (x : Lexeme) : (afterFlags f).apply x = ({ flags := f } : Reader).apply x := by
  cases x <;> rfl

lemma lexeme_pending {b b' : Bool} (hc : c ≠ '\x7b') : lexeme f b c rest = lexeme f b' c rest := by
  unfold lexeme
  split
  all_goals first | rfl | exact absurd rfl hc

lemma readToken_afterFlags (h : (afterFlags f).readToken c rest = .ok (r,rest')) :
    ({ flags := f } : Reader).readToken c rest = .ok (r,rest') := by
  obtain ⟨hdepth,x,hlex,happly⟩ := readToken_eq_ok.mp h
  refine readToken_eq_ok.mpr ⟨hdepth,x,?_,(apply_afterFlags x).symm.trans happly⟩
  by_cases hc : c = '\x7b'
  · subst hc
    have hlex : lexeme f true '\x7b' rest = .ok (x,rest') := hlex
    have hgoal : lexeme f false '\x7b' rest = .ok (x,rest') := by
      simp only [lexeme] at hlex ⊢
      split at hlex
      · -- bounds would repeat what the flags left
        obtain ⟨rest₁,-,hlex⟩ := except_bind_eq_ok.mp hlex
        obtain ⟨rfl,-⟩ := Prod.mk.inj (Except.ok.inj hlex)
        cases happly
      · exact hlex
    exact hgoal
  · exact (lexeme_pending hc).trans hlex

/-- A text is read after flags as it is read from the start. -/
lemma readAll_afterFlags (h : (afterFlags f).readAll n cs = .ok r) :
    ∃ r', ({ flags := f } : Reader).readAll n cs = .ok r' ∧ r'.flush = r.flush := by
  cases n with
  | zero =>
    obtain rfl := Except.ok.inj h
    exact ⟨{ flags := f },rfl,rfl⟩
  | succ n =>
    rw [Reader.readAll,except_bind_eq_ok] at h
    obtain ⟨cs',hblanks,h⟩ := h
    have hblanks : skipBlanks f.extended cs = .ok cs' := hblanks
    cases cs' with
    | nil =>
      obtain rfl := Except.ok.inj h
      refine ⟨{ flags := f },?_,rfl⟩
      rw [Reader.readAll,hblanks]
      rfl
    | cons c rest =>
      obtain ⟨x,htoken,h⟩ := except_bind_eq_ok.mp h
      refine ⟨r,?_,rfl⟩
      rw [Reader.readAll,hblanks]
      simp only [bind,Except.bind,readToken_afterFlags htoken]
      exact h

lemma readAll_prefix (n : Nat) (cs : List Char) :
    ({} : Reader).readAll (n + 1) ((if ic then "(?mi)" else "(?m)").toList ++ cs) =
      (afterFlags (ruleFlags ic)).readAll n cs := by
  cases ic with
  | true => rfl
  | false => rfl

/-- The reader at the end of a rule's pattern. -/
def readRule (source : String) (ignoreCase : Bool) : Except PatternError Reader :=
  let cs := ((if ignoreCase then "(?mi)" else "(?m)") ++ source).toList
  ({} : Reader).readAll (cs.length + 1) cs

/-- A pattern ends with the flags that it starts with. -/
def KeepsFlags (ignoreCase : Bool) (source : String) : Prop :=
  (readRule source ignoreCase).toOption.map Reader.flags = some (ruleFlags ignoreCase)

lemma compileRule_eq (source : String) (ic : Bool) :
    Regex.compileRule source ic = readRule source ic >>= Regex.ofReader := rfl

lemma readRule_eq (source : String) (ic : Bool) : ∃ n, source.toList.length < n ∧
    readRule source ic = (afterFlags (ruleFlags ic)).readAll n source.toList := by
  refine ⟨((if ic then "(?mi)" else "(?m)") ++ source).toList.length,?_,?_⟩
  · rw [String.toList_append,List.length_append]
    cases ic with
    | true => exact Nat.lt_add_of_pos_left (by decide)
    | false => exact Nat.lt_add_of_pos_left (by decide)
  · rw [readRule,← readAll_prefix,← String.toList_append]

/-- The bounds of repetitions are as they should be. -/
def Ordered (regex : Regex) : Prop :=
  (if regex.plain then regex.pattern.boundsOrdered else regex.pattern.settledBoundsOrdered) = true

/-- What the reader at the end of a text makes of a pattern. -/
def regexOf (r : Reader) (p : Pattern) : Regex where
  pattern := p.settle r.referenced
  groups := r.groups
  plain := p.isPlain r.referenced

lemma finish_eq_ok {p : Pattern} : r.finish = .ok p ↔ r.outer = [] ∧
    ∃ branches whole, r.contents = .ok (branches,whole) ∧ whole.pattern = p := by
  unfold Reader.finish
  cases houter : r.outer with
  | nil =>
    rw [if_neg (by decide),except_bind_eq_ok]
    constructor
    · rintro ⟨⟨branches,whole⟩,hcontents,h⟩
      exact ⟨rfl,branches,whole,hcontents,Except.ok.inj h⟩
    · rintro ⟨-,branches,whole,hcontents,rfl⟩
      exact ⟨_,hcontents,rfl⟩
  | cons g gs =>
    constructor
    · intro h
      cases h
    · rintro ⟨h,-⟩
      cases h

lemma ofReader_eq_ok {regex : Regex} : Regex.ofReader r = .ok regex ↔
    ∃ p, r.finish = .ok p ∧ regex = regexOf r p ∧ Ordered regex := by
  unfold Regex.ofReader
  rw [except_bind_eq_ok]
  constructor
  · rintro ⟨p,hp,h⟩
    by_cases hordered : Ordered (regexOf r p)
    · obtain rfl := Except.ok.inj ((if_pos hordered).symm.trans h)
      exact ⟨p,hp,rfl,hordered⟩
    · cases (if_neg hordered).symm.trans h
  · rintro ⟨p,hp,rfl,hordered⟩
    exact ⟨p,hp,if_pos hordered⟩

/-- A rule that compiles is read alone. -/
theorem readsAs_of_compileRule {source : String} {regex : Regex}
    (h : Regex.compileRule source ic = .ok regex) :
    ∃ r p, ReadsAs (ruleFlags ic) source.toList r p ∧ regex = regexOf r p ∧ Ordered regex ∧
      (KeepsFlags ic source → r.flags = ruleFlags ic) := by
  obtain ⟨n,hn,heq⟩ := readRule_eq source ic
  rw [compileRule_eq,except_bind_eq_ok] at h
  obtain ⟨r,hr,h⟩ := h
  obtain ⟨p,hp,hregex,hordered⟩ := ofReader_eq_ok.mp h
  obtain ⟨houter,branches,whole,hcontents,hwhole⟩ := finish_eq_ok.mp hp
  obtain ⟨r',hr',hflush⟩ := readAll_afterFlags (heq ▸ hr)
  have hsame : regexOf r p = regexOf r' p := by
    have hreferenced : r'.referenced = r.referenced := by
      rw [← r'.flush_referenced,hflush,r.flush_referenced]
    have hgroups : r'.groups = r.groups := by rw [← r'.flush_groups,hflush,r.flush_groups]
    rw [regexOf,regexOf,hreferenced,hgroups]
  refine ⟨r',p,⟨⟨n,hn,hr'⟩,?_,branches,whole,?_,hwhole⟩,hregex.trans hsame,hordered,fun hkeeps => ?_⟩
  · rw [← r'.flush_outer,hflush,r.flush_outer,houter]
  · rw [← r'.contents_flush,hflush,r.contents_flush,hcontents]
  · rw [KeepsFlags,hr] at hkeeps
    rw [← r'.flush_flags,hflush,r.flush_flags]
    exact Option.some.inj hkeeps

end Highlight.Rules
