import Highlight.Proofs.Regex.Ahead
import Highlight.Proofs.Rules.Alternated
import Highlight.Proofs.Rules.Moved

/-!
A pattern that is tied to where the text in sight starts. It is read in a group as it is alone, and
matches where the pattern does when what lies before is out of sight.
-/
namespace Highlight.Rules

open Regex

variable {named ic : Bool} {f : Flags} {r : Reader} {p : Pattern} {cs ds rest : List Char} {c : Char}
  {n m : Nat} {own source : String} {text : Source} {q : Nat}

section Reading

/-- What stands around a pattern that is tied to where the text in sight starts. -/
def anchorage (f : Flags) : Enclosure where
  offset := 0
  names := []
  numbered := false
  referenced := []
  kind := .plain f
  before := []
  outer := [{ kind := .plain {}, pieces := [.ofAssertion .textStart] }]

/-- The text of such a pattern. -/
def anchored (cs : List Char) : List Char := '\\' :: 'A' :: '(' :: '?' :: ':' :: (cs ++ [')'])

lemma readAll_anchorage (hx : f.extended = false) (m : Nat) (cs : List Char) :
    (afterFlags f).readAll (m + 2) (anchored cs) =
      ((anchorage f).embed { flags := f }).readAll m (cs ++ [')']) := by
  have hstart : (afterFlags f).readToken '\\' ('A' :: '(' :: '?' :: ':' :: (cs ++ [')'])) =
      .ok ((afterFlags f).push (.ofAssertion .textStart),'(' :: '?' :: ':' :: (cs ++ [')'])) :=
    readToken_eq_ok.mpr ⟨by simp,_,rfl,rfl⟩
  have hopen : ((afterFlags f).push (.ofAssertion .textStart)).readToken '(' ('?' :: ':' :: (cs ++ [')'])) =
      .ok ((anchorage f).embed { flags := f },cs ++ [')']) := by
    refine readToken_eq_ok.mpr ⟨by simp [afterFlags,maxDepth,Reader.push,Reader.flush],
      .plain f,?_,rfl⟩
    have hblanks : ∀ {c : Char}, c ≠ '(' → ∀ cs, skipBlanks f.extended (c :: cs) = .ok (c :: cs) := by
      intro c hc cs
      rw [hx]
      exact skipBlanks_eq (noComment_of_head (by simpa using hc))
    have hgroup : lexGroup f ('?' :: ':' :: (cs ++ [')'])) =
        lexSpecial f (':' :: (cs ++ [')'])) := by
      rw [lexGroup,hblanks (by decide)]
      rfl
    have hflags : lexSpecial f (':' :: (cs ++ [')'])) = .ok (.plain f,cs ++ [')']) := by
      rw [lexSpecial_flags (by simp),lexFlags,hblanks (by decide)]
      rfl
    exact hgroup.trans hflags
  rw [anchored,readAll_cons hx (noComment_of_head (by simp)),hstart]
  have hx' : ((afterFlags f).push (.ofAssertion .textStart)).flags.extended = false := hx
  have hcomment : NoComment ('(' :: '?' :: ':' :: (cs ++ [')'])) := by
    rintro ⟨rest,hrest⟩
    simp at hrest
  exact (readAll_cons hx' hcomment).trans (by rw [hopen]; rfl)

/-- A pattern after the start of the text in sight. -/
def tied (p : Pattern) : Pattern := if p = .empty then .assert .textStart else .cat (.assert .textStart) p

/-- The reader behind the text of such a pattern. -/
def behind (f : Flags) (r : Reader) (p : Pattern) (repeatable : Bool) : Reader :=
  { (anchorage f).embed r with
    flags := f
    pending := some ⟨p,repeatable⟩
    current := { kind := .plain {}, pieces := [.ofAssertion .textStart] }
    outer := [] }

lemma suits_anchorage (f : Flags) (named : Bool) : (anchorage f).Suits named :=
  ⟨fun _ => rfl,fun _ => rfl⟩

lemma close_anchorage (h : ReadsAs f cs r p) (hs : r.Sound named) :
    ∃ repeatable, ((anchorage f).embed r).close = .ok (behind f r p repeatable) := by
  obtain ⟨branches,whole,hcontents,rfl⟩ := h.contents
  have hwhole : whole.renumber (anchorage f).offset = whole := by
    rw [Piece.renumber]
    exact congrArg (fun pattern => { whole with pattern }) whole.pattern.renumber_zero
  have hcontents := Enclosure.contents_embed (e := anchorage f)
    (fun _ => (suits_anchorage f named).unmixed hs) (fun _ => rfl) hcontents
  have houter : ((anchorage f).embed r).outer = (anchorage f).outer := by
    simp only [Enclosure.embed,h.outer]
    rfl
  have hkind : ((anchorage f).embed r).current.kind = .plain f := by
    simp only [Enclosure.embed,h.outer]
    rfl
  refine ⟨whole.repeatable,?_⟩
  unfold Reader.close
  rw [houter,anchorage]
  dsimp only
  rw [← anchorage,hcontents,hkind,hwhole]
  rfl

lemma finish_behind (hs : r.Sound named) (p : Pattern) (repeatable : Bool) :
    (behind f r p repeatable).finish = .ok (tied p) := by
  have hmixed : ((behind f r p repeatable).numbered && !(behind f r p repeatable).names.isEmpty) = false :=
    (suits_anchorage f named).unmixed hs
  refine finish_eq_ok.mpr ⟨rfl,?_⟩
  unfold Reader.contents
  have hbranches : (behind f r p repeatable).flush.current.branches = [] := by
    rw [Reader.flush_branches]
    rfl
  dsimp only
  rw [hbranches]
  dsimp only
  rw [hmixed]
  refine ⟨_,_,rfl,?_⟩
  rw [last_pattern,tied,Reader.flush,behind]
  dsimp only
  split
  · rfl
  · rfl

/-- The anchored pattern is read as the pattern is alone. -/
theorem readRule_anchored (h : ReadsAs (ruleFlags ic) own.toList r p)
    (hfits : FitsFrom named 0 own.toList) (hroom : groupCount own.toList < UInt64.size) :
    r.Sound named ∧ ∃ repeatable,
      readRule ("\\A(?:" ++ own ++ ")") ic = .ok (behind (ruleFlags ic) r p repeatable) := by
  obtain ⟨n,hn,hrun⟩ := h.run
  obtain ⟨m,hm,hread⟩ := readRule_eq ("\\A(?:" ++ own ++ ")") ic
  have htext : ("\\A(?:" ++ own ++ ")").toList = anchored own.toList := by
    rw [String.toList_append,String.toList_append]
    rfl
  rw [htext] at hm hread
  have hlen : (anchored own.toList).length = (own.toList ++ [')']).length + 5 := rfl
  obtain ⟨m,rfl⟩ := Nat.exists_eq_add_of_le' (show 2 ≤ m by omega)
  have hzero : inGroup 0 [] own.toList = own.toList ++ [')'] := inGroup_zero [] own.toList
  have hlong : (inGroup (anchorage (ruleFlags ic)).offset [] own.toList).length < m := by
    simp only [anchorage,hzero]
    omega
  obtain ⟨hs,-,m',hm',hall⟩ := readAll_inGroup (suits_anchorage (ruleFlags ic) named) rfl
    (sound_start rfl named) hfits hrun hn (by simpa [anchorage] using hroom) hlong
  have hall : ((anchorage (ruleFlags ic)).embed { flags := ruleFlags ic }).readAll m
      (own.toList ++ [')']) = ((anchorage (ruleFlags ic)).embed r).readAll m' [')'] := hzero ▸ hall
  obtain ⟨repeatable,hclose⟩ := close_anchorage h hs
  refine ⟨hs,repeatable,?_⟩
  obtain ⟨m',rfl⟩ := Nat.exists_eq_add_of_le' (show 2 ≤ m' from hm')
  have hextended : ((anchorage (ruleFlags ic)).embed r).flags.extended = false := hs.extended
  have htoken : ((anchorage (ruleFlags ic)).embed r).readToken ')' [] =
      .ok (behind (ruleFlags ic) r p repeatable,[]) :=
    readToken_eq_ok.mpr ⟨by simp,.close,rfl,hclose⟩
  rw [hread,readAll_anchorage rfl,hall,readAll_cons hextended (noComment_of_head (by simp)),htoken]
  exact readAll_nil (r := behind (ruleFlags ic) r p repeatable) (n := m') rfl

end Reading

section Matching

variable {plain : Bool} {t : Haystack} {i : Nat} {g g' : Regex}

lemma settle_tied (referenced : List Nat) (p : Pattern) :
    (tied p).settle referenced = tied (p.settle referenced) := by
  have hempty : p.settle referenced = .empty ↔ p = .empty := by
    cases p with
    | empty => exact ⟨fun _ => rfl,fun _ => rfl⟩
    | _ => exact ⟨(fun h => by cases h),(fun h => by cases h)⟩
  unfold tied
  simp only [hempty]
  split
  · rfl
  · rfl

lemma isPlain_tied (referenced : List Nat) (p : Pattern) :
    (tied p).isPlain referenced = p.isPlain referenced := by
  unfold tied
  split
  · rename_i hempty
    rw [hempty]
    rfl
  · exact Bool.true_and _

lemma boundsOrdered_tied (p : Pattern) : (tied p).boundsOrdered = p.boundsOrdered ∧
    (tied p).settledBoundsOrdered = p.settledBoundsOrdered := by
  unfold tied
  split
  · rename_i hempty
    rw [hempty]
    exact ⟨rfl,rfl⟩
  · exact ⟨Bool.true_and _,Bool.true_and _⟩

lemma ordered_tied (h : Ordered (regexOf r p)) {r' : Reader} (hr' : r'.referenced = r.referenced) :
    Ordered (regexOf r' (tied p)) := by
  unfold Ordered regexOf at h ⊢
  simpa only [hr',isPlain_tied,settle_tied,boundsOrdered_tied] using h

/-- It leads where the text in sight starts to what the pattern does, and nowhere else. -/
lemma leads_tied (plain : Bool) (t : Haystack) (p : Pattern) (s : Spot) : (tied p).leads plain t s =
    if s.position = t.origin then p.leads plain t s else [] := by
  have hholds : Assertion.textStart.holds t s.position = decide (s.position = t.origin) := rfl
  unfold tied
  split
  · rename_i hempty
    subst hempty
    cases plain with
    | true => simp [Pattern.leads,Pattern.ways,hholds]
    | false => simp [Pattern.leads,Pattern.routes,hholds]
  · cases plain with
    | true =>
      simp only [Pattern.leads,if_true,Pattern.ways,hholds,decide_eq_true_eq]
      split
      · rfl
      · rfl
    | false =>
      simp only [Pattern.leads,Bool.false_eq_true,if_false,Pattern.routes,hholds,decide_eq_true_eq]
      split
      · exact List.flatMap_singleton _ _
      · rfl

lemma lead?_tied (plain : Bool) (t : Haystack) (p : Pattern) : (tied p).lead? plain t { position := i } =
    if i = t.origin then p.lead? plain t { position := i } else none := by
  rw [Pattern.lead?,leads_tied,apply_ite List.head?]
  rfl

/-- A pattern that compiles does so when it is anchored. What lies before a position is then out of
sight, and nothing matches after it. -/
theorem exists_anchored (hg : Regex.compileRule own ic = .ok g) (hfits : FitsFrom named 0 own.toList)
    (hroom : countGroups own < UInt64.size) : ∃ g', Regex.compileAnchored own ic = .ok g' ∧
      g'.plain = g.plain ∧ ∀ text q i, g'.preferred { text, origin := q } i =
        if i = q then g.preferred { text, origin := q } q else none := by
  obtain ⟨r,p,hreads,rfl,hordered,-⟩ := readsAs_of_compileRule hg
  obtain ⟨hs,repeatable,hread⟩ := readRule_anchored hreads hfits hroom
  have hreferenced : (behind (ruleFlags ic) r p repeatable).referenced = r.referenced := by
    have hsame : (behind (ruleFlags ic) r p repeatable).referenced =
        r.referenced.map (shiftGroup 0) ++ [] := rfl
    have hzero : shiftGroup 0 = id := funext shiftGroup_zero
    rw [hsame,hzero,List.map_id,List.append_nil]
  refine ⟨regexOf (behind (ruleFlags ic) r p repeatable) (tied p),?_,?_,fun text q i => ?_⟩
  · rw [Regex.compileAnchored,compileRule_eq,hread]
    exact ofReader_eq_ok.mpr ⟨_,finish_behind hs p repeatable,rfl,ordered_tied hordered hreferenced⟩
  · simp only [regexOf,hreferenced,isPlain_tied]
  · simp only [preferred_eq,regexOf,hreferenced,isPlain_tied,settle_tied,lead?_tied]
    split
    · rename_i hi
      rw [hi]
    · rfl

/-- Whether a pattern matches at a position when what lies before it is out of sight. -/
def MatchesFrom (pattern : String) (ignoreCase : Bool) (text : Source) (position : Nat) : Prop :=
  ∃ g, Regex.compileRule pattern ignoreCase = .ok g ∧
    (g.preferred { text, origin := position } position).isSome

/-- A pattern that matches at a position whether or not what lies before is in sight. -/
def LooksAhead (ignoreCase : Bool) (pattern : String) : Prop :=
  ∀ text position, position ≤ text.size →
    (MatchesFrom pattern ignoreCase text position ↔ MatchesAt pattern ignoreCase text position)

/-- Patterns that ask for nothing before the position where they start are of this kind. -/
theorem LooksAhead.of_looksAhead {pattern : String}
    (h : (Regex.compileRule pattern ic).toOption.any (·.pattern.looksAhead) = true) :
    LooksAhead ic pattern := by
  obtain ⟨g,hg,hahead⟩ := exists_eq_ok_of_any h
  intro text position _
  rw [matchesAt_iff hg,← preferred_since hahead]
  exact ⟨fun ⟨_,hg',hsome⟩ => Except.ok.inj (hg.symm.trans hg') ▸ hsome,
    fun hsome => ⟨g,hg,hsome⟩⟩

/-- Whether an anchored pattern matches in what lies at and after a position: as the pattern does when
what lies before is out of sight, if the search is not given up. -/
theorem matchesIn_anchored (hg : Regex.compileRule own ic = .ok g) (hfits : FitsFrom named 0 own.toList)
    (hroom : countGroups own < UInt64.size) (hg' : Regex.compileAnchored own ic = .ok g')
    (hq : q ≤ text.size) :
    (∃ matched, g'.matchesIn text q = .ok matched ∧ (matched = true ↔ MatchesFrom own ic text q)) ∨
      g'.matchesIn text q = .error .gaveUp ∧ g.plain = false := by
  obtain ⟨g₁,hg₁,hplain,hall⟩ := exists_anchored hg hfits hroom
  obtain rfl := Except.ok.inj (hg'.symm.trans hg₁)
  have hmatches : MatchesFrom own ic text q ↔ (g.preferred { text, origin := q } q).isSome :=
    ⟨fun ⟨_,hg',hsome⟩ => Except.ok.inj (hg.symm.trans hg') ▸ hsome,fun hsome => ⟨g,hg,hsome⟩⟩
  rw [Regex.matchesIn,hmatches]
  cases hsearch : g'.search { text, origin := q } q with
  | error e =>
    cases e
    refine .inr ⟨rfl,?_⟩
    rw [← hplain]
    by_contra hp
    rw [Regex.search,if_pos (by simpa using hp)] at hsearch
    cases hsearch
  | ok found =>
    have hleftmost := search_isLeftmost hsearch
    refine .inl ⟨found.isSome,rfl,?_⟩
    cases found with
    | none =>
      have hlt : q < q + (text.size + 1 - q) := by omega
      have hnone := hleftmost q (Nat.le_refl q) hlt
      rw [hall,if_pos rfl] at hnone
      rw [hnone]
      rfl
    | some found =>
      obtain ⟨-,-,hsome,-⟩ := hleftmost
      rw [hall] at hsome
      split at hsome
      · rw [hsome]
        rfl
      · cases hsome

/-- Whether an end needs no backtracking and asks for nothing before the position where it starts. -/
def looksAheadPlainly (own : String) (ignoreCase : Bool) : Bool :=
  fitsWithin false own.toList.length 0 own.toList && decide (countGroups own < UInt64.size) &&
    (Regex.compileRule own ignoreCase).toOption.any (fun g => g.plain && g.pattern.looksAhead)

/-- An anchored end of this kind tells whether the end matches as a rule. -/
lemma matchesIn_of_looksAheadPlainly (h : looksAheadPlainly own ic = true)
    (hg' : Regex.compileAnchored own ic = .ok g') (hq : q ≤ text.size) :
    g'.matchesIn text q = .ok (Rule.end? ⟨own,.ends⟩ ic text q).isSome := by
  simp only [looksAheadPlainly,Bool.and_eq_true,decide_eq_true_eq] at h
  obtain ⟨⟨hfits,hroom⟩,htest⟩ := h
  obtain ⟨g,hg,hplain⟩ := (Option.any_eq_true _ _).mp htest
  obtain ⟨hplain,hahead⟩ := Bool.and_eq_true_iff.mp hplain
  have hlooks : LooksAhead ic own :=
    .of_looksAhead ((Option.any_eq_true _ _).mpr ⟨g,hg,hahead⟩)
  rcases matchesIn_anchored (except_eq_ok_of_toOption hg) hfits hroom hg' hq with
    ⟨matched,hmatched,hiff⟩ | ⟨-,hbacktracks⟩
  · rw [hmatched]
    congr 1
    rw [Bool.eq_iff_iff,hiff,hlooks text q hq]
    exact (isSome_end?_iff ⟨own,.ends⟩).symm
  · exact absurd (hbacktracks.symm.trans hplain) Bool.false_ne_true

end Matching
end Highlight.Rules
