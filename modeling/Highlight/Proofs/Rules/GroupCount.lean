import Highlight.Proofs.Rules.Appended
import Highlight.Proofs.Rules.Clear

/-!
The capture groups of a pattern by the light scan and by the language. Token by token, the light scan counts
those that the reader of patterns opens, if the text is clear to it. Otherwise the two may differ: the light scan
takes the first bracket in a set for the one that closes it, and knows neither comments nor blanks.
-/
namespace Highlight.Rules

open Regex

variable {blanks pending : Bool} {f : Flags} {x : Lexeme} {c : Char} {n : Nat} {cs cs' cs₁ rest : List Char}

/-- Blanks count by these flags only if they may. -/
def Allowed (blanks : Bool) (f : Flags) : Prop := f.extended = true → blanks = true

/-- A token opens as many groups as the light scan counts, and lets blanks count only if they may. -/
structure Tallies (blanks : Bool) (cs : List Char) (x : Lexeme) (cs' : List Char) : Prop where
  counts : Counts blanks (if x.captures then 1 else 0) cs cs'
  flagged : x.Flagged (Allowed blanks)

/-- A token opens no group, and the light scan counts none. -/
structure TalliesNone (blanks : Bool) (cs : List Char) (x : Lexeme) (cs' : List Char) : Prop where
  counts : Counts blanks 0 cs cs'
  captures : x.captures = false
  flagged : x.Flagged (Allowed blanks)

namespace TalliesNone

lemma after (h : Counts blanks 0 cs cs₁) (hx : TalliesNone blanks cs₁ x cs') : TalliesNone blanks cs x cs' :=
  { hx with counts := h.trans hx.counts }

lemma tallies (h : TalliesNone blanks cs x cs') : Tallies blanks cs x cs' := by
  refine ⟨?_,h.flagged⟩
  rw [h.captures]
  exact h.counts

end TalliesNone

section Bounds

variable {e : Bool} {least : Nat} {most : Option Nat}

lemma counts_readDecimal? (h : readDecimal? cs = some (n,cs')) : Counts blanks 0 cs cs' := by
  obtain ⟨-,rfl,-⟩ := readDecimal?_eq_some h
  exact .dropSpared spares_isDigit cs

lemma counts_readLeast? (h : readLeast? cs = some (n,cs')) : Counts blanks 0 cs cs' := by
  unfold readLeast? at h
  split at h
  · obtain ⟨-,rfl⟩ := Prod.mk.inj (Option.some.inj h)
    exact .refl cs
  · exact counts_readDecimal? h

lemma exists_of_skip {α : Type} {F : List Char → Option α} {a : α} (he : e = true → blanks = true)
    (h : (skipBlanks e cs).toOption.bind F = some a) : ∃ cs', Counts blanks 0 cs cs' ∧ F cs' = some a := by
  obtain ⟨cs',hs,h⟩ := Option.bind_eq_some_iff.mp h
  exact ⟨cs',counts_skipBlanks he (except_eq_ok_of_toOption hs),h⟩

lemma counts_readMost? (he : e = true → blanks = true) (h : readMost? e least cs = some (most,cs')) :
    Counts blanks 0 cs cs' := by
  by_cases hcomma : cs.head? = some ','
  · obtain ⟨cs,rfl⟩ := List.head?_eq_some_iff.mp hcomma
    rw [readMost?_comma] at h
    obtain ⟨cs₁,hs,h⟩ := exists_of_skip he h
    have hnumber : Counts blanks 0 cs₁ cs' := by
      have h := Option.some.inj h
      split at h
      · rename_i hdecimal
        obtain ⟨-,rfl⟩ := Prod.mk.inj h
        exact counts_readDecimal? hdecimal
      · obtain ⟨-,rfl⟩ := Prod.mk.inj h
        exact .refl cs₁
    exact ((Counts.cons (by decide) cs).trans hs).trans hnumber
  · rw [readMost?_other hcomma] at h
    obtain ⟨-,rfl⟩ := Prod.mk.inj (Option.some.inj h)
    exact .refl cs

lemma counts_readBounds? (he : e = true → blanks = true) (h : readBounds? e cs = some (least,most,cs')) :
    Counts blanks 0 cs cs' := by
  rw [readBounds?_eq] at h
  obtain ⟨cs₁,h₁,h⟩ := exists_of_skip he h
  obtain ⟨r,hl,h⟩ := Option.bind_eq_some_iff.mp h
  obtain ⟨cs₂,h₂,h⟩ := exists_of_skip he h
  obtain ⟨r',hm,h⟩ := Option.bind_eq_some_iff.mp h
  obtain ⟨cs₃,h₃,h⟩ := exists_of_skip he h
  have hclose : cs' = (takeMark '\x7d' cs₃).2 := by
    split at h
    · cases h
      rfl
    · cases h
  rw [hclose]
  exact ((((h₁.trans (counts_readLeast? hl)).trans h₂).trans (counts_readMost? he hm)).trans h₃).trans
    (.takeMark (by decide) cs₃)

lemma lexRounds_tallies (hf : Allowed blanks f) (h : lexRounds f least most cs = .ok (x,cs')) :
    TalliesNone blanks cs x cs' := by
  obtain ⟨cs₁,hs,h⟩ := except_bind_eq_ok.mp h
  obtain ⟨rfl,rfl⟩ := Prod.mk.inj (Except.ok.inj h)
  have hmarks : Counts blanks 0 cs₁ (takeMark '+' (takeMark '?' cs₁).2).2 :=
    (Counts.takeMark (by decide) cs₁).trans (.takeMark (by decide) _)
  exact ⟨(counts_skipBlanks hf hs).trans hmarks,rfl,trivial⟩

end Bounds

section Groups

lemma counts_readName? {closing : Char} {name : String} (hc : IsOrdinary closing)
    (h : readName? closing cs = some (name,cs')) : Counts blanks 0 cs cs' := by
  obtain ⟨-,hdrop,-⟩ := readName?_eq_some h
  have hname : Counts blanks 0 cs (closing :: cs') := hdrop ▸ .dropSpared spares_isNameChar cs
  exact hname.trans (.cons hc cs')

lemma lexNamedGroup_counts (blanks : Bool) (h : lexNamedGroup cs = .ok (x,cs')) :
    Counts blanks 0 cs cs' ∧ ∃ name, x = .capture (some name) := by
  unfold lexNamedGroup at h
  split at h
  · rename_i hname
    obtain ⟨rfl,rfl⟩ := Prod.mk.inj (Except.ok.inj h)
    exact ⟨counts_readName? (by decide) hname,_,rfl⟩
  · cases h

lemma lexNameRef_tallies (blanks : Bool) {closing : Char} (hc : IsOrdinary closing)
    (h : lexNameRef closing cs = .ok (x,cs')) : TalliesNone blanks cs x cs' := by
  unfold lexNameRef at h
  split at h
  · rename_i hname
    obtain ⟨rfl,rfl⟩ := Prod.mk.inj (Except.ok.inj h)
    exact ⟨counts_readName? hc hname,rfl,trivial⟩
  · cases h

lemma sparesExtended_cons (hc : isFlagChar c = true) (h : sparesExtended (c :: rest) = true) :
    c ≠ 'x' ∧ sparesExtended rest = true := by
  rw [sparesExtended,List.takeWhile_cons_of_pos hc,List.dropWhile_cons_of_pos hc,Bool.and_eq_true] at h
  obtain ⟨hx,hend⟩ := h
  simp only [List.contains_cons,Bool.not_or,Bool.and_eq_true] at hx
  refine ⟨?_,Bool.and_eq_true_iff.mpr ⟨hx.2,hend⟩⟩
  rintro rfl
  cases hx.1

lemma noComment_of_sparesExtended (h : sparesExtended cs = true) : NoComment cs := by
  refine noComment_of_head (fun hhead => ?_)
  obtain ⟨rest,rfl⟩ := List.head?_eq_some_iff.mp hhead
  cases h

lemma isFlagChar_of_setFlag? {f' : Flags} {on : Bool} (h : setFlag? f on c = some f') : isFlagChar c = true := by
  by_cases hc : c = 'x'
  · exact hc ▸ rfl
  · exact (setFlag?_eq_some h hc).1

/-- Flags that leave the extended mode off are read without blanks between them. -/
lemma lexFlags_tallies {off : Bool} {count : Nat} (hf : Allowed blanks f)
    (hs : blanks = true ∨ sparesExtended cs = true)
    (h : lexFlags n f off count cs = .ok (x,cs')) : TalliesNone blanks cs x cs' := by
  induction n generalizing f off count cs with
  | zero => cases h
  | succ n ih =>
    rw [lexFlags,except_bind_eq_ok] at h
    obtain ⟨cs₁,hskip,h⟩ := h
    have hs₁ : blanks = true ∨ sparesExtended cs₁ = true := by
      by_cases hx : blanks = true
      · exact .inl hx
      · have hspared := hs.resolve_left hx
        rw [eq_false_of_ne_true (fun hext => hx (hf hext)),
          skipBlanks_eq (noComment_of_sparesExtended hspared)] at hskip
        exact .inr (Except.ok.inj hskip ▸ hspared)
    refine .after (counts_skipBlanks hf hskip) ?_
    cases cs₁ with
    | nil => cases h
    | cons c rest =>
      dsimp only at h
      split at h
      · rename_i hminus
        subst hminus
        split at h
        · cases h
        · exact .after (.cons (by decide) rest)
            (ih hf (hs₁.imp_right (fun hs => (sparesExtended_cons rfl hs).2)) h)
      · split at h
        · rename_i hclose
          subst hclose
          split at h
          · cases h
          · obtain ⟨rfl,rfl⟩ := Prod.mk.inj (Except.ok.inj h)
            exact ⟨.cons (by decide) rest,rfl,hf⟩
        · split at h
          · rename_i hcolon
            subst hcolon
            split at h
            · cases h
            · obtain ⟨rfl,rfl⟩ := Prod.mk.inj (Except.ok.inj h)
              exact ⟨.cons (by decide) rest,rfl,hf⟩
          · split at h
            · rename_i f' hset
              have hc := isFlagChar_of_setFlag? hset
              have hallowed : Allowed blanks f' := by
                rcases hs₁ with hx | hs₁
                · exact fun _ => hx
                · have hext := (setFlag?_eq_some hset (sparesExtended_cons hc hs₁).1).2
                  exact fun h => hf (hext.symm.trans h)
              exact .after (.cons (spares_isFlagChar.ordinary hc).1 rest)
                (ih hallowed (hs₁.imp_right (fun hs => (sparesExtended_cons hc hs).2)) h)
            · cases h

/-- What stands behind a question mark opens a group just if the light scan takes it for a name. -/
lemma lexSpecial_tallies (hf : Allowed blanks f) (hs : blanks = true ∨ sparesExtended cs = true)
    (h : lexSpecial f cs = .ok (x,cs')) :
    Counts blanks 0 cs cs' ∧ x.captures = opensNamed cs ∧ x.Flagged (Allowed blanks) := by
  unfold lexSpecial at h
  split at h
  · obtain ⟨rfl,rfl⟩ := Prod.mk.inj (Except.ok.inj h)
    exact ⟨.cons (by decide) _,rfl,trivial⟩
  · obtain ⟨rfl,rfl⟩ := Prod.mk.inj (Except.ok.inj h)
    exact ⟨.cons (by decide) _,rfl,trivial⟩
  · obtain ⟨rfl,rfl⟩ := Prod.mk.inj (Except.ok.inj h)
    exact ⟨(Counts.cons (by decide) _).trans (.cons (by decide) _),rfl,trivial⟩
  · obtain ⟨rfl,rfl⟩ := Prod.mk.inj (Except.ok.inj h)
    exact ⟨(Counts.cons (by decide) _).trans (.cons (by decide) _),rfl,trivial⟩
  · rename_i hequals hbang
    obtain ⟨hname,name,rfl⟩ := lexNamedGroup_counts blanks h
    exact ⟨(Counts.cons (by decide) _).trans hname,
      (opensNamed_angle (fun rest heq => hequals rest heq) (fun rest heq => hbang rest heq)).symm,trivial⟩
  · obtain ⟨hname,name,rfl⟩ := lexNamedGroup_counts blanks h
    exact ⟨((Counts.cons (by decide) _).trans (.cons (by decide) _)).trans hname,rfl,trivial⟩
  · obtain ⟨href,hcaptures,hflagged⟩ := lexNameRef_tallies blanks (by decide) h
    exact ⟨((Counts.cons (by decide) _).trans (.cons (by decide) _)).trans href,hcaptures,hflagged⟩
  · obtain ⟨rfl,rfl⟩ := Prod.mk.inj (Except.ok.inj h)
    exact ⟨.cons (by decide) _,rfl,trivial⟩
  · cases h
  · rename_i hequals hbang _ _ hless hname href hmore hparen
    obtain ⟨hflags,hcaptures,hflagged⟩ := lexFlags_tallies hf hs h
    have hopens : opensNamed cs = false :=
      opensNamed_eq_false (fun rest heq => hless rest heq) (fun rest heq => hname rest heq)
    exact ⟨hflags,hcaptures.trans hopens.symm,hflagged⟩

/-- No blanks or comments hide the question mark of a group in a clear text. -/
lemma lexGroup_tallies (hclear : Clear blanks ('(' :: cs)) (hn : NoComment ('(' :: cs)) (hf : Allowed blanks f)
    (h : lexGroup f cs = .ok (x,cs')) : Tallies blanks ('(' :: cs) x cs' := by
  obtain ⟨cs₁,hskip,h⟩ := except_bind_eq_ok.mp h
  by_cases hquestion : cs.head? = some '?'
  · obtain ⟨inside,rfl⟩ := List.head?_eq_some_iff.mp hquestion
    have hinside : inside.head? ≠ some '#' := by
      intro hhead
      obtain ⟨rest,rfl⟩ := List.head?_eq_some_iff.mp hhead
      exact hn ⟨rest,rfl⟩
    have hstop : skipBlanks f.extended ('?' :: inside) = .ok ('?' :: inside) :=
      skipBlanksWithin_stop (noComment_of_head (by simp)) (fun _ => by decide) _
    obtain rfl := Except.ok.inj (hstop.symm.trans hskip)
    obtain ⟨hcounts,hcaptures,hflagged⟩ := lexSpecial_tallies hf (hclear.sparesExtended hinside) h
    refine ⟨?_,hflagged⟩
    rw [hcaptures]
    exact (Counts.special hinside).trans hcounts
  · split at h
    · have hmem : f.extended ∈ [false,blanks] := by
        cases hext : f.extended with
        | false => exact List.mem_cons_self
        | true => rw [hf hext]; exact List.mem_cons_of_mem _ List.mem_cons_self
      have hhidden : hidesQuestion blanks cs = true := List.any_eq_true.mpr ⟨_,hmem,by rw [hskip]; rfl⟩
      exact absurd (hhidden.symm.trans (hclear.hidesQuestion hquestion)) (by decide)
    · obtain ⟨rfl,rfl⟩ := Prod.mk.inj (Except.ok.inj h)
      exact ⟨(Counts.group hquestion).trans (counts_skipBlanks hf hskip),trivial⟩

end Groups

section Tokens

lemma lexEscape_tallies (h : lexEscape f c cs = .ok (x,cs')) : TalliesNone blanks ('\\' :: c :: cs) x cs' := by
  refine .after (.escape c cs) ?_
  unfold lexEscape at h
  split at h
  · rename_i hdigit
    split at h
    · rename_i hdecimal
      obtain ⟨rfl,rfl⟩ := Prod.mk.inj (Except.ok.inj h)
      obtain ⟨-,hdrop,-⟩ := readDecimal?_eq_some hdecimal
      rw [List.dropWhile_cons_of_pos hdigit] at hdrop
      exact ⟨hdrop ▸ .dropSpared spares_isDigit cs,rfl,trivial⟩
    · cases h
  · obtain ⟨r,hr,heq⟩ := except_map_eq_ok.mp h
    obtain ⟨rfl,rfl⟩ := Prod.mk.inj heq
    obtain ⟨u,rfl,hu,-⟩ := readEscape_wordy hr
    exact ⟨.append (fun c hc => (hu c hc).ordinary),rfl,trivial⟩

lemma lexBackslash_tallies (h : lexBackslash f cs = .ok (x,cs')) : TalliesNone blanks ('\\' :: cs) x cs' := by
  cases cs with
  | nil => cases h
  | cons c cs =>
    by_cases hother : c ∈ ['k','A','z','b','B']
    · have hassert : ∀ a : Assertion, lexBackslash f (c :: cs) = .ok (.piece (.ofAssertion a),cs) →
          TalliesNone blanks ('\\' :: c :: cs) x cs' := by
        intro a ha
        obtain ⟨rfl,rfl⟩ := Prod.mk.inj (Except.ok.inj (h.symm.trans ha))
        exact ⟨.escape c _,rfl,trivial⟩
      simp only [List.mem_cons,List.not_mem_nil,or_false] at hother
      rcases hother with rfl | rfl | rfl | rfl | rfl
      · cases cs with
        | nil => cases h
        | cons b cs =>
          by_cases hb : b = '<'
          · subst hb
            exact .after ((Counts.escape 'k' _).trans (.cons (by decide) cs))
              (lexNameRef_tallies blanks (by decide) h)
          · rw [lexBackslash] at h
            · cases h
            · intro _ heq
              exact hb (List.cons.inj heq).1
      · exact hassert .textStart rfl
      · exact hassert .textEnd rfl
      · exact hassert .wordBoundary rfl
      · exact hassert .notWordBoundary rfl
    · rw [lexBackslash_other hother] at h
      exact lexEscape_tallies h

/-- The light scan goes with the reader over every token of a clear text. -/
theorem lexeme_tallies (hclear : Clear blanks (c :: cs)) (hn : NoComment (c :: cs)) (hf : Allowed blanks f)
    (h : lexeme f pending c cs = .ok (x,cs')) : Tallies blanks (c :: cs) x cs' := by
  by_cases hspecial : c ∈ ['|',')','?','*','+','\x7b','(','\\','[','.','^','$']
  · have hrounds : ∀ {least : Nat} {most : Option Nat} {after : List Char}, IsOrdinary c →
        Counts blanks 0 cs after → lexRounds f least most after = .ok (x,cs') →
          Tallies blanks (c :: cs) x cs' :=
      fun hc hafter hlex =>
        (TalliesNone.after ((Counts.cons hc cs).trans hafter) (lexRounds_tallies hf hlex)).tallies
    have hhere : IsOrdinary c → cs' = cs → x.captures = false → x.Flagged (Allowed blanks) →
        Tallies blanks (c :: cs) x cs' := by
      rintro hc rfl hcaptures hflagged
      exact TalliesNone.tallies ⟨.cons hc cs',hcaptures,hflagged⟩
    simp only [List.mem_cons,List.not_mem_nil,or_false] at hspecial
    rcases hspecial with rfl | rfl | rfl | rfl | rfl | rfl | rfl | rfl | rfl | rfl | rfl | rfl
    · obtain ⟨rfl,rfl⟩ := Prod.mk.inj (Except.ok.inj h)
      exact hhere (by decide) rfl rfl trivial
    · obtain ⟨rfl,rfl⟩ := Prod.mk.inj (Except.ok.inj h)
      exact hhere (by decide) rfl rfl trivial
    · exact hrounds (by decide) (.refl cs) h
    · exact hrounds (by decide) (.refl cs) h
    · exact hrounds (by decide) (.refl cs) h
    · cases pending with
      | false =>
        rw [lexeme_brace_alone] at h
        obtain ⟨rfl,rfl⟩ := Prod.mk.inj (Except.ok.inj h)
        exact hhere (by decide) rfl rfl trivial
      | true =>
        rw [lexeme_brace] at h
        cases hbounds : readBounds? f.extended cs with
        | none =>
          rw [hbounds] at h
          obtain ⟨rfl,rfl⟩ := Prod.mk.inj (Except.ok.inj h)
          exact hhere (by decide) rfl rfl trivial
        | some r =>
          rw [hbounds] at h
          exact hrounds (by decide) (counts_readBounds? hf hbounds) h
    · exact lexGroup_tallies hclear hn hf h
    · exact (lexBackslash_tallies h).tallies
    · obtain ⟨⟨s,after⟩,hset,h⟩ := except_bind_eq_ok.mp h
      obtain ⟨rfl,rfl⟩ := Prod.mk.inj (Except.ok.inj h)
      exact TalliesNone.tallies ⟨.set hset,rfl,trivial⟩
    · obtain ⟨rfl,rfl⟩ := Prod.mk.inj (Except.ok.inj h)
      exact hhere (by decide) rfl rfl trivial
    · obtain ⟨rfl,rfl⟩ := Prod.mk.inj (Except.ok.inj h)
      exact hhere (by decide) rfl rfl trivial
    · obtain ⟨rfl,rfl⟩ := Prod.mk.inj (Except.ok.inj h)
      exact hhere (by decide) rfl rfl trivial
  · rw [lexeme_char hspecial] at h
    obtain ⟨rfl,rfl⟩ := Prod.mk.inj (Except.ok.inj h)
    simp only [List.mem_cons,not_or] at hspecial
    have hc : IsOrdinary c := ⟨by tauto,by tauto,by tauto⟩
    exact TalliesNone.tallies ⟨.cons hc cs,rfl,trivial⟩

end Tokens

section Runs

variable {r r' : Reader}

/-- A reader opens the groups that the light scan counts in what is left of a clear text. -/
theorem readAll_groups (hw : r.Within) (hf : r.Flagged (Allowed blanks)) (hclear : Clear blanks cs)
    (h : r.readAll n cs = .ok r') (hn : cs.length < n) : r'.groups = r.groups + groupCount cs := by
  induction n generalizing r cs with
  | zero => exact absurd hn (Nat.not_lt_zero _)
  | succ n ih =>
    rcases Reader.readAll_succ_eq_ok.mp h with ⟨hskip,rfl⟩ | ⟨c,rest,x,r₁,rest₁,hskip,-,hlex,happly,h⟩
    · obtain ⟨hcount,-⟩ := counts_skipBlanks hf.flags hskip hclear
      rw [hcount]
      rfl
    · obtain ⟨hcount,hclear₁⟩ := counts_skipBlanks hf.flags hskip hclear
      obtain ⟨hcounts,hflagged⟩ := lexeme_tallies hclear₁ (noComment_of_skipBlanks hskip) hf.flags hlex
      obtain ⟨hcount₁,hclear₂⟩ := hcounts hclear₁
      obtain ⟨hw₁,hgroups,-⟩ := hw.apply (lexeme_opensNone hlex) happly
      have hlen := (skipBlanks_skipped hskip).suffix.length_le
      have hlen₁ := (lexeme_reads hlex).1.length_le
      simp only [List.length_cons] at hlen
      have hrest := ih hw₁ (hf.apply hflagged happly) hclear₂ h (by omega)
      omega

/-- The light scan counts the groups of every pattern that compiles and that is clear to it. -/
theorem countGroups_eq_groups {pattern : String} {ignoreCase : Bool} {regex : Regex}
    (h : Regex.compileRule pattern ignoreCase = .ok regex) (hclear : Clear blanks pattern.toList) :
    countGroups pattern = regex.groups := by
  obtain ⟨r,p,⟨⟨n,hn,hrun⟩,-,-⟩,rfl,-⟩ := readsAs_of_compileRule h
  have hw : ({ flags := ruleFlags ignoreCase } : Reader).Within := ⟨nofun,nofun,⟨trivial,nofun,nofun⟩,nofun⟩
  have hf : ({ flags := ruleFlags ignoreCase } : Reader).Flagged (Allowed blanks) := by
    refine ⟨nofun,fun k hk f hkind => ?_⟩
    obtain rfl := List.mem_singleton.mp hk
    obtain rfl := GroupKind.plain.inj hkind
    exact nofun
  rw [countGroups_eq,← Nat.zero_add (groupCount _)]
  exact (readAll_groups hw hf hclear hrun hn).symm

/-- The parenthesis of a condition would be counted, so a pattern with one is not clear. -/
example : ¬ Clear true "(a)(?(1)b|c)".toList := by decide +kernel

/-- A pattern with sets in sets, a named group, a comment, a look-behind, flags and escapes. -/
def clearPattern : String := "(?<n>[[:alpha:]_[0-9]]+)(?#note)(?<=b)(?i:c|\\()([^\\]a&&[^(]])"

/-- A pattern in which blanks count, and do not in one of its groups. -/
def blankPattern : String := "(?x) ( a+ ) # a line\n [a-z]+ (?-x: b ) (?P<m> c )"

/-- A pattern compiles and has so many groups. -/
def Opens (pattern : String) (groups : Nat) : Prop :=
  ∃ regex, Regex.compileRule pattern false = .ok regex ∧ regex.groups = groups

lemma opens_of_any {pattern : String} {groups : Nat}
    (h : (Regex.compileRule pattern false).toOption.any (fun regex => regex.groups == groups) = true) :
    Opens pattern groups := by
  obtain ⟨regex,hregex,hgroups⟩ := exists_eq_ok_of_any h
  exact ⟨regex,hregex,eq_of_beq hgroups⟩

theorem countGroups_eq_groups_clearPattern :
    (Opens clearPattern 2 ∧ Clear false clearPattern.toList ∧ countGroups clearPattern = 2) ∧
      Opens blankPattern 2 ∧ Clear true blankPattern.toList ∧ countGroups blankPattern = 2 := by
  have hopens : Opens clearPattern 2 := opens_of_any (by decide +kernel)
  have hclear : Clear false clearPattern.toList := by decide +kernel
  have hopens' : Opens blankPattern 2 := opens_of_any (by decide +kernel)
  have hclear' : Clear true blankPattern.toList := by decide +kernel
  obtain ⟨regex,hregex,hgroups⟩ := id hopens
  obtain ⟨regex',hregex',hgroups'⟩ := id hopens'
  exact ⟨⟨hopens,hclear,(countGroups_eq_groups hregex hclear).trans hgroups⟩,
    hopens',hclear',(countGroups_eq_groups hregex' hclear').trans hgroups'⟩

/-- A parenthesis in a set or a comment opens no group, nor does one before a question mark that a comment
hides; and no set starts in a comment. The light scan counts otherwise. -/
theorem countGroups_ne_groups :
    (Opens "[](]" 0 ∧ countGroups "[](]" = 1) ∧
    (Opens "[a[b](]" 0 ∧ countGroups "[a[b](]" = 1) ∧
    (Opens "[[:alpha:](]" 0 ∧ countGroups "[[:alpha:](]" = 1) ∧
    (Opens "(?#()a" 0 ∧ countGroups "(?#()a" = 1) ∧
    (Opens "(?x)#(\na" 0 ∧ countGroups "(?x)#(\na" = 1) ∧
    (Opens "((?#b)?:a)" 0 ∧ countGroups "((?#b)?:a)" = 1) ∧
    Opens "(?#[)(a)]" 1 ∧ countGroups "(?#[)(a)]" = 0 := by
  refine ⟨⟨?_,by decide +kernel⟩,⟨?_,by decide +kernel⟩,⟨?_,by decide +kernel⟩,⟨?_,by decide +kernel⟩,
    ⟨?_,by decide +kernel⟩,⟨?_,by decide +kernel⟩,?_,by decide +kernel⟩
  all_goals exact opens_of_any (by decide +kernel)

end Runs

end Highlight.Rules
