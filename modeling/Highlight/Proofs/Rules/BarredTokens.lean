import Highlight.Proofs.Rules.Barred

/-!
The tokens of a text before a bar. They are those of the text alone, so that the reader comes to the bar
as it would come to the end.
-/
namespace Highlight.Rules

open Regex

variable {f : Flags} {x : Lexeme} {c : Char} {n m : Nat} {tail cs cs' : List Char}

/-- Whether the reader goes on with the flags that it has. -/
def keepsFlags : Lexeme → Bool
  | .flags _ | .plain _ | .close => false
  | _ => true

/-- Where the text ends after a token, blanks count, unless the token changes the flags. -/
def BlanksCount (f : Flags) (x : Lexeme) (cs' : List Char) : Prop :=
  cs' = [] → keepsFlags x = true → f.extended = false

/-- A token is taken up from a text, and before a bar as well. -/
structure Reads (f : Flags) (lex : List Char → LexResult) (cs : List Char) (x : Lexeme)
    (cs' : List Char) : Prop where
  suffix : cs' <:+ cs
  barred : BlanksCount f x cs' → ∀ tail, lex (barred tail cs) = .ok (x,barred tail cs')

namespace Reads

variable {lex lex' : List Char → LexResult}

/-- What starts with a known mark. -/
lemma cons (h : Reads f lex cs x cs') (hlex : ∀ cs, lex' (c :: cs) = lex cs) :
    Reads f lex' (c :: cs) x cs' :=
  ⟨h.suffix.trans (List.suffix_cons c cs),fun hs tail => (hlex _).trans (h.barred hs tail)⟩

/-- What starts with two known marks. -/
lemma consTwo {d : Char} (h : Reads f lex cs x cs') (hlex : ∀ cs, lex' (c :: d :: cs) = lex cs) :
    Reads f lex' (c :: d :: cs) x cs' :=
  ⟨h.suffix.trans ((List.suffix_cons d cs).trans (List.suffix_cons c _)),
    fun hs tail => (hlex _).trans (h.barred hs tail)⟩

lemma here (h : ∀ cs, lex cs = .ok (x,cs)) (cs : List Char) : Reads f lex cs x cs :=
  ⟨List.suffix_refl cs,fun _ _ => h _⟩

/-- A token that is nothing but its mark. -/
lemma mark (h : ∀ cs, lex (c :: cs) = .ok (x,cs)) (cs : List Char) : Reads f lex (c :: cs) x cs :=
  (here h cs).cons (fun _ => rfl)

lemma markTwo {d : Char} (h : ∀ cs, lex (c :: d :: cs) = .ok (x,cs)) (cs : List Char) :
    Reads f lex (c :: d :: cs) x cs := (here h cs).consTwo (fun _ => rfl)

end Reads

lemma lexRounds_reads {least : Nat} {most : Option Nat} (h : lexRounds f least most cs = .ok (x,cs')) :
    Reads f (lexRounds f least most) cs x cs' := by
  obtain ⟨cs₁,hs,h⟩ := except_bind_eq_ok.mp h
  obtain ⟨rfl,rfl⟩ := Prod.mk.inj (Except.ok.inj h)
  refine ⟨((takeMark_suffix _ _).trans (takeMark_suffix _ _)).trans (skipBlanks_skipped hs).suffix,
    fun hcount tail => ?_⟩
  have hend : cs₁ = [] → f.extended = false := by
    rintro rfl
    exact hcount rfl rfl
  rw [lexRounds,skipBlanks_barred hs hend]
  simp only [bind,Except.bind,takeMark_barred (show '?' ≠ '|' by decide),
    takeMark_barred (show '+' ≠ '|' by decide)]
  rfl

section Names

variable {name : String} {closing : Char}

lemma readName?_barred (h : readName? closing cs = some (name,cs')) (tail : List Char) :
    readName? closing (barred tail cs) = some (name,barred tail cs') := by
  obtain ⟨hname,hdrop,hne⟩ := readName?_eq_some h
  simp only [readName?,takeWhile_barred (p := Text.isNameChar) rfl,
    dropWhile_barred (p := Text.isNameChar) rfl,hdrop,barred_cons,← hname,String.ofList_toList]
  refine if_pos ?_
  simpa only [decide_true,Bool.true_and,Bool.not_eq_true',List.isEmpty_eq_false_iff] using hne

lemma readName?_suffix (h : readName? closing cs = some (name,cs')) : cs' <:+ cs := by
  obtain ⟨-,hdrop,-⟩ := readName?_eq_some h
  exact (List.suffix_cons closing cs').trans (hdrop ▸ List.dropWhile_suffix _)

lemma lexNameRef_reads (h : lexNameRef closing cs = .ok (x,cs')) :
    Reads f (lexNameRef closing) cs x cs' := by
  unfold lexNameRef at h
  split at h
  · rename_i hname
    obtain ⟨rfl,rfl⟩ := Prod.mk.inj (Except.ok.inj h)
    refine ⟨readName?_suffix hname,fun _ tail => ?_⟩
    rw [lexNameRef,readName?_barred hname]
  · cases h

lemma lexNamedGroup_reads (h : lexNamedGroup cs = .ok (x,cs')) :
    Reads f lexNamedGroup cs x cs' := by
  unfold lexNamedGroup at h
  split at h
  · rename_i hname
    obtain ⟨rfl,rfl⟩ := Prod.mk.inj (Except.ok.inj h)
    refine ⟨readName?_suffix hname,fun _ tail => ?_⟩
    rw [lexNamedGroup,readName?_barred hname]
  · cases h

end Names

section Groups

/-- Inline flags end before the bar. -/
lemma lexFlags_barred {off : Bool} {count : Nat} (h : lexFlags n f off count cs = .ok (x,cs')) :
    cs' <:+ cs ∧ ∀ m tail, n ≤ m →
      lexFlags m f off count (barred tail cs) = .ok (x,barred tail cs') := by
  induction n generalizing f off count cs with
  | zero => cases h
  | succ n ih =>
    rw [lexFlags,except_bind_eq_ok] at h
    obtain ⟨cs₁,hs,h⟩ := h
    have hsuffix := (skipBlanks_skipped hs).suffix
    cases cs₁ with
    | nil => cases h
    | cons c rest =>
      have hstep : ∀ {m : Nat} (tail : List Char), n + 1 ≤ m → ∃ k, m = k + 1 ∧ n ≤ k ∧
          skipBlanks f.extended (barred tail cs) = .ok (barred tail (c :: rest)) := by
        intro m tail hm
        exact ⟨m - 1,by omega,by omega,skipBlanks_barred hs (fun hnil => by cases hnil) tail⟩
      have hrest : rest <:+ cs := (List.suffix_cons c rest).trans hsuffix
      dsimp only at h
      split at h
      · rename_i hminus
        split at h
        · cases h
        · rename_i hoff
          obtain ⟨hsuffix',hall⟩ := ih h
          refine ⟨hsuffix'.trans hrest,fun m tail hm => ?_⟩
          obtain ⟨k,rfl,hk,hskip⟩ := hstep tail hm
          rw [lexFlags,hskip]
          exact (if_pos hminus).trans ((if_neg hoff).trans (hall k tail hk))
      · rename_i hminus
        split at h
        · rename_i hclose
          split at h
          · cases h
          · rename_i hcount
            obtain ⟨rfl,rfl⟩ := Prod.mk.inj (Except.ok.inj h)
            refine ⟨hrest,fun m tail hm => ?_⟩
            obtain ⟨k,rfl,hk,hskip⟩ := hstep tail hm
            rw [lexFlags,hskip]
            exact (if_neg hminus).trans ((if_pos hclose).trans (if_neg hcount))
        · rename_i hclose
          split at h
          · rename_i hcolon
            split at h
            · cases h
            · rename_i hcount
              obtain ⟨rfl,rfl⟩ := Prod.mk.inj (Except.ok.inj h)
              refine ⟨hrest,fun m tail hm => ?_⟩
              obtain ⟨k,rfl,hk,hskip⟩ := hstep tail hm
              rw [lexFlags,hskip]
              exact (if_neg hminus).trans ((if_neg hclose).trans ((if_pos hcolon).trans
                (if_neg hcount)))
          · rename_i hcolon
            split at h
            · rename_i f' hset
              obtain ⟨hsuffix',hall⟩ := ih h
              refine ⟨hsuffix'.trans hrest,fun m tail hm => ?_⟩
              obtain ⟨k,rfl,hk,hskip⟩ := hstep tail hm
              rw [lexFlags,hskip]
              refine (if_neg hminus).trans ((if_neg hclose).trans ((if_neg hcolon).trans ?_))
              rw [hset]
              exact hall k tail hk
            · cases h

lemma lexSpecial_reads (h : lexSpecial f cs = .ok (x,cs')) : Reads f (lexSpecial f) cs x cs' := by
  unfold lexSpecial at h
  split at h
  · obtain ⟨rfl,rfl⟩ := Prod.mk.inj (Except.ok.inj h)
    exact .mark (fun _ => rfl) _
  · obtain ⟨rfl,rfl⟩ := Prod.mk.inj (Except.ok.inj h)
    exact .mark (fun _ => rfl) _
  · obtain ⟨rfl,rfl⟩ := Prod.mk.inj (Except.ok.inj h)
    exact .markTwo (fun _ => rfl) _
  · obtain ⟨rfl,rfl⟩ := Prod.mk.inj (Except.ok.inj h)
    exact .markTwo (fun _ => rfl) _
  · rename_i rest hequals hbang
    have hgroup := lexNamedGroup_reads (f := f) h
    refine ⟨hgroup.suffix.trans (List.suffix_cons _ _),fun hs tail => ?_⟩
    rw [barred_cons,lexSpecial_angle]
    · exact hgroup.barred hs tail
    · intro hhead
      obtain ⟨rest,rfl⟩ := List.head?_eq_some_iff.mp (head?_of_barred (by decide) hhead)
      exact hequals rest rfl
    · intro hhead
      obtain ⟨rest,rfl⟩ := List.head?_eq_some_iff.mp (head?_of_barred (by decide) hhead)
      exact hbang rest rfl
  · exact (lexNamedGroup_reads h).consTwo (fun _ => rfl)
  · exact (lexNameRef_reads h).consTwo (fun _ => rfl)
  · obtain ⟨rfl,rfl⟩ := Prod.mk.inj (Except.ok.inj h)
    exact .mark (fun _ => rfl) _
  · cases h
  · rename_i hequals hbang _ _ hless hname href hmore hparen
    obtain ⟨hsuffix,hall⟩ := lexFlags_barred h
    refine ⟨hsuffix,fun _ tail => ?_⟩
    have hlen : cs.length + 1 ≤ (barred tail cs).length + 1 := by
      rw [barred,List.length_append]
      omega
    have hne : cs ≠ [] := by
      rintro rfl
      rw [lexFlags] at h
      cases h
    have hno : ∀ c : Char, (∀ rest, cs = c :: rest → False) →
        ∀ rest, barred tail cs = c :: rest → False := by
      intro c hc rest heq
      obtain ⟨rest₁,hcs,-⟩ := eq_cons_of_barred hne heq
      exact hc rest₁ hcs
    have hno₂ : ∀ c d : Char, d ≠ '|' → (∀ rest, cs = c :: d :: rest → False) →
        ∀ rest, barred tail cs = c :: d :: rest → False := by
      intro c d hd hc rest heq
      obtain ⟨rest₁,rfl,hrest⟩ := eq_cons_of_barred hne heq
      have hhead : (barred tail rest₁).head? = some d := by rw [← hrest]; rfl
      obtain ⟨rest₂,rfl⟩ := List.head?_eq_some_iff.mp (head?_of_barred hd hhead)
      exact hc rest₂ rfl
    rw [lexSpecial]
    · exact hall _ tail hlen
    · exact hno '=' hequals
    · exact hno '!' hbang
    · exact fun _ => hno '<' hless _
    · exact fun _ => hno '<' hless _
    · exact hno '<' hless
    · exact hno₂ 'P' '<' (by decide) hname
    · exact hno₂ 'P' '=' (by decide) href
    · exact hno '>' hmore
    · exact hno '(' hparen

lemma lexGroup_reads (h : lexGroup f cs = .ok (x,cs')) : Reads f (lexGroup f) cs x cs' := by
  obtain ⟨cs₁,hs,h⟩ := except_bind_eq_ok.mp h
  have hsuffix := (skipBlanks_skipped hs).suffix
  split at h
  · have hspecial := lexSpecial_reads h
    refine ⟨(hspecial.suffix.trans (List.suffix_cons _ _)).trans hsuffix,fun hcount tail => ?_⟩
    rw [lexGroup,skipBlanks_barred hs (fun hnil => by cases hnil)]
    exact hspecial.barred hcount tail
  · rename_i hquestion
    obtain ⟨rfl,rfl⟩ := Prod.mk.inj (Except.ok.inj h)
    refine ⟨hsuffix,fun hcount tail => ?_⟩
    rw [lexGroup,skipBlanks_barred hs (fun hnil => hcount hnil rfl)]
    simp only [bind,Except.bind]
    split
    · rename_i rest heq
      have hhead : (barred tail cs₁).head? = some '?' := congrArg List.head? heq
      obtain ⟨rest₁,rfl⟩ := List.head?_eq_some_iff.mp (head?_of_barred (by decide) hhead)
      exact absurd rfl (hquestion rest₁)
    · rfl

end Groups

section Backslash

lemma lexEscape_reads (h : lexEscape f c cs = .ok (x,cs')) : Reads f (lexEscape f c) cs x cs' := by
  unfold lexEscape at h
  split at h
  · rename_i hdigit
    split at h
    · rename_i hdecimal
      obtain ⟨rfl,rfl⟩ := Prod.mk.inj (Except.ok.inj h)
      have hvalue := readDecimal?_eq_some hdecimal
      refine ⟨?_,fun _ tail => ?_⟩
      · rw [hvalue.2.1,List.dropWhile_cons_of_pos hdigit]
        exact List.dropWhile_suffix _
      · rw [lexEscape,if_pos hdigit,← barred_cons,readDecimal?_barred,hdecimal]
        rfl
    · cases h
  · rename_i hdigit
    obtain ⟨r,hr,heq⟩ := except_map_eq_ok.mp h
    obtain ⟨rfl,rfl⟩ := Prod.mk.inj heq
    obtain ⟨u,rfl,-,hread⟩ := readEscape_wordy hr
    refine ⟨List.suffix_append u _,fun _ tail => ?_⟩
    rw [lexEscape,if_neg hdigit,barred_append,hread]
    rfl

lemma lexBackslash_reads (h : lexBackslash f cs = .ok (x,cs')) :
    Reads f (lexBackslash f) cs x cs' := by
  cases cs with
  | nil => cases h
  | cons c cs =>
    by_cases hother : c ∈ ['k','A','z','b','B']
    · have hassert : ∀ a : Assertion,
          (∀ cs, lexBackslash f (c :: cs) = .ok (.piece (.ofAssertion a),cs)) →
            Reads f (lexBackslash f) (c :: cs) x cs' := by
        intro a ha
        rw [ha] at h
        obtain ⟨rfl,rfl⟩ := Prod.mk.inj (Except.ok.inj h)
        exact .mark ha _
      simp only [List.mem_cons,List.not_mem_nil,or_false] at hother
      rcases hother with rfl | rfl | rfl | rfl | rfl
      · cases cs with
        | nil => cases h
        | cons b cs =>
          by_cases hb : b = '<'
          · subst hb
            exact (lexNameRef_reads h).consTwo (fun _ => rfl)
          · rw [lexBackslash] at h
            · cases h
            · intro _ heq
              exact hb (List.cons.inj heq).1
      · exact hassert .textStart (fun _ => rfl)
      · exact hassert .textEnd (fun _ => rfl)
      · exact hassert .wordBoundary (fun _ => rfl)
      · exact hassert .notWordBoundary (fun _ => rfl)
    · rw [lexBackslash_other hother] at h
      exact (lexEscape_reads h).cons (lexBackslash_other hother)

end Backslash

section Sets

variable {fold : Bool} {s : CharSet}

lemma setStart_barred (cs : List Char) :
    setStart (barred tail cs) = ((setStart cs).1,barred tail (setStart cs).2) := by
  simp only [setStart,takeMark_barred (show '^' ≠ '|' by decide),
    takeMark_barred (show ']' ≠ '|' by decide)]

lemma setStart_suffix (cs : List Char) : (setStart cs).2 <:+ cs :=
  (takeMark_suffix _ _).trans (takeMark_suffix _ _)

lemma readSet_barred (h : readSet fold cs = .ok (s,cs')) :
    cs' <:+ cs ∧ ∀ tail, readSet fold (barred tail cs) = .ok (s,barred tail cs') := by
  have hstart := setStart_suffix cs
  have hbarred : ∀ tail, setStart (barred tail cs) = ((setStart cs).1,barred tail (setStart cs).2) :=
    fun _ => setStart_barred cs
  unfold readSet at h
  generalize setStart cs = st at h hstart hbarred
  obtain ⟨start,cs₁⟩ := st
  obtain ⟨⟨tokens,rest⟩,htokens,h⟩ := except_bind_eq_ok.mp h
  obtain ⟨⟨s',left⟩,hitems,h⟩ := except_bind_eq_ok.mp h
  dsimp only at h
  split at h
  · rename_i hleft
    obtain ⟨rfl,rfl⟩ := Prod.mk.inj (Except.ok.inj h)
    obtain ⟨u,rfl,hall⟩ := setTokens_reads htokens
    obtain ⟨tokens',htokens',hread⟩ := hall fold
    obtain rfl := htokens' rfl
    refine ⟨(List.suffix_append u _).trans hstart,fun tail => ?_⟩
    have hlen : (u ++ rest).length + 1 ≤ (u ++ barred tail rest).length + 1 := by
      simp only [barred,List.length_append]
      omega
    rw [readSet,hbarred]
    simp only [bind,Except.bind,barred_append,hread _ _ hlen,hitems]
    exact if_pos hleft
  · cases h

end Sets

/-- A brace with nothing before it to repeat. -/
lemma lexeme_brace_alone (cs : List Char) :
    lexeme f false '\x7b' cs = .ok (.piece (.ofChar f '\x7b'),cs) := by
  simp only [lexeme]
  split
  · rfl
  · rfl

lemma lexeme_brace (cs : List Char) : lexeme f true '\x7b' cs =
    (readBounds? f.extended cs).elim (.ok (.piece (.ofChar f '\x7b'),cs))
      (fun r => lexRounds f r.1 r.2.1 r.2.2) := by
  simp only [lexeme]
  split
  · rename_i hbounds
    rw [hbounds]
    rfl
  · rename_i hbounds
    rw [hbounds]
    rfl

/-- A token of a text is the same token before a bar. What the brace of a repetition might hold must be
readable where it is not taken for bounds. -/
theorem lexeme_reads {pending : Bool} (h : lexeme f pending c cs = .ok (x,cs')) : cs' <:+ cs ∧
    ((cs' = cs → keepsFlags x = true → Readable f.extended cs) → BlanksCount f x cs' →
      ∀ tail, lexeme f pending c (barred tail cs) = .ok (x,barred tail cs')) := by
  have hof : ∀ {P : Prop}, Reads f (lexeme f pending c) cs x cs' → cs' <:+ cs ∧
      (P → BlanksCount f x cs' → ∀ tail, lexeme f pending c (barred tail cs) = .ok (x,barred tail cs')) :=
    fun hreads => ⟨hreads.suffix,fun _ => hreads.barred⟩
  by_cases hspecial : c ∈ ['|',')','?','*','+','\x7b','(','\\','[','.','^','$']
  · have hhere : ∀ x' : Lexeme, (∀ cs, lexeme f pending c cs = .ok (x',cs)) →
        Reads f (lexeme f pending c) cs x cs' := by
      intro x' hlex
      rw [hlex] at h
      obtain ⟨rfl,rfl⟩ := Prod.mk.inj (Except.ok.inj h)
      exact .here hlex cs
    simp only [List.mem_cons,List.not_mem_nil,or_false] at hspecial
    rcases hspecial with rfl | rfl | rfl | rfl | rfl | rfl | rfl | rfl | rfl | rfl | rfl | rfl
    · exact hof (hhere .bar (fun _ => rfl))
    · exact hof (hhere .close (fun _ => rfl))
    · exact hof (lexRounds_reads h)
    · exact hof (lexRounds_reads h)
    · exact hof (lexRounds_reads h)
    · cases pending with
      | false => exact hof (hhere (.piece (.ofChar f '\x7b')) lexeme_brace_alone)
      | true =>
        rw [lexeme_brace] at h
        cases hbounds : readBounds? f.extended cs with
        | none =>
          rw [hbounds] at h
          obtain ⟨rfl,rfl⟩ := Prod.mk.inj (Except.ok.inj h)
          refine ⟨List.suffix_refl cs,fun hread _ tail => ?_⟩
          rw [lexeme_brace,readBounds?_barred (fun _ => hread rfl rfl),hbounds]
          rfl
        | some r =>
          rw [hbounds] at h
          have hreads := lexRounds_reads h
          refine ⟨hreads.suffix.trans (readBounds?_suffix hbounds),fun _ hcount tail => ?_⟩
          rw [lexeme_brace,readBounds?_barred (fun hnone => by rw [hbounds] at hnone; cases hnone),
            hbounds]
          exact hreads.barred hcount tail
    · exact hof (lexGroup_reads h)
    · exact hof (lexBackslash_reads h)
    · obtain ⟨⟨s,rest⟩,hset,h⟩ := except_bind_eq_ok.mp h
      obtain ⟨rfl,rfl⟩ := Prod.mk.inj (Except.ok.inj h)
      obtain ⟨hsuffix,hall⟩ := readSet_barred hset
      refine ⟨hsuffix,fun _ _ tail => ?_⟩
      simp only [lexeme,hall]
      rfl
    · exact hof (hhere _ (fun _ => rfl))
    · exact hof (hhere _ (fun _ => rfl))
    · exact hof (hhere _ (fun _ => rfl))
  · rw [lexeme_char hspecial] at h
    obtain ⟨rfl,rfl⟩ := Prod.mk.inj (Except.ok.inj h)
    exact hof (.here (lexeme_char hspecial) cs)

section Readers

variable {r r' : Reader}

lemma flags_of_refer (h : r.refer n = .ok r') : r'.flags = r.flags := by
  obtain ⟨-,rfl⟩ := Reader.eq_push_of_refer h
  exact Reader.flush_flags _

lemma flags_of_apply (h : r.apply x = .ok r') (hx : keepsFlags x = true) : r'.flags = r.flags := by
  cases x with
  | piece p =>
    obtain rfl := Except.ok.inj h
    exact r.flush_flags
  | bar =>
    obtain rfl := Except.ok.inj h
    exact r.flush_flags
  | rounds least most greedy possessive =>
    obtain ⟨piece,rfl⟩ := Reader.exists_flush_of_repeatPiece h
    exact Reader.flush_flags _
  | atomic =>
    obtain rfl := Except.ok.inj h
    exact r.flush_flags
  | look behind negated =>
    obtain rfl := Except.ok.inj h
    exact r.flush_flags
  | capture name =>
    obtain rfl := Except.ok.inj h
    exact Reader.flush_flags _
  | numberRef n =>
    have h : ({ r with numbered := true } : Reader).refer n = .ok r' := h
    have hflags := flags_of_refer h
    exact hflags
  | nameRef name =>
    obtain ⟨n,hn⟩ := Reader.Within.refer_of_referByName h
    exact flags_of_refer hn
  | flags f => cases hx
  | plain inside => cases hx
  | close => cases hx

lemma readAll_nil_eq (h : r.readAll n [] = .ok r') : r' = r := by
  cases n with
  | zero => exact (Except.ok.inj h).symm
  | succ n => exact (Except.ok.inj h).symm

/-- A text is read before a bar as it is read alone, if blanks count where it ends. -/
theorem readAll_barred (h : r.readAll n cs = .ok r') (hn : cs.length < n)
    (hflags : r'.flags.extended = false) (hm : (barred tail cs).length < m) :
    ∃ m', tail.length + 1 < m' ∧ r.readAll m (barred tail cs) = r'.readAll m' ('|' :: tail) := by
  induction n generalizing r cs m with
  | zero => exact absurd hn (Nat.not_lt_zero _)
  | succ n ih =>
    obtain ⟨m,rfl⟩ := Nat.exists_eq_add_one_of_ne_zero (Nat.ne_of_gt (Nat.zero_lt_of_lt hm))
    have hlen : (barred tail cs).length = cs.length + (tail.length + 1) := List.length_append
    rw [Reader.readAll,except_bind_eq_ok] at h
    obtain ⟨cs₁,hs,h⟩ := h
    have hsuffix := (skipBlanks_skipped hs).suffix.length_le
    cases cs₁ with
    | nil =>
      obtain rfl : r = r' := Except.ok.inj h
      refine ⟨m + 1,by omega,?_⟩
      have hbar : skipBlanks r.flags.extended ('|' :: tail) = .ok ('|' :: tail) :=
        skipBlanksWithin_stop (noComment_of_head (by simp)) (fun _ => by decide) _
      rw [readAll_skip (skipBlanks_barred hs (fun _ => hflags) tail),readAll_skip hbar]
    | cons c rest =>
      obtain ⟨⟨r₁,rest₁⟩,htoken,h⟩ := except_bind_eq_ok.mp h
      have h : r₁.readAll n rest₁ = .ok r' := h
      obtain ⟨hdepth,x,hlex,happly⟩ := readToken_eq_ok.mp htoken
      simp only [List.length_cons] at hsuffix
      have hcount : BlanksCount r.flags x rest₁ := by
        rintro rfl hx
        rw [← flags_of_apply happly hx,← readAll_nil_eq h]
        exact hflags
      obtain ⟨hrest,hbarred⟩ := lexeme_reads hlex
      have hrest := hrest.length_le
      have hread : rest₁ = rest → keepsFlags x = true → Readable r.flags.extended rest := fun heq hx =>
        ⟨n,r₁,r',by omega,congrArg Flags.extended (flags_of_apply happly hx),heq ▸ h,hflags⟩
      have hlen₁ : (barred tail rest₁).length = rest₁.length + (tail.length + 1) :=
        List.length_append
      obtain ⟨m',hm',hall⟩ := ih (m := m) h (by omega) (by omega)
      refine ⟨m',hm',?_⟩
      have htoken' : r.readToken c (barred tail rest) = .ok (r₁,barred tail rest₁) :=
        readToken_eq_ok.mpr ⟨hdepth,x,hbarred hread hcount tail,happly⟩
      have hskip : skipBlanks r.flags.extended (barred tail cs) = .ok (c :: barred tail rest) :=
        skipBlanks_barred hs (fun hnil => by cases hnil) tail
      rw [readAll_skip hskip,htoken']
      exact hall

end Readers

end Highlight.Rules
