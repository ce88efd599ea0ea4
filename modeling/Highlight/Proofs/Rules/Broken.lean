import Highlight.Proofs.Rules.Anchored
import Highlight.Proofs.Rules.AnyFlags
import Highlight.Proofs.Rules.Detached
import Highlight.Proofs.Rules.Found

/-!
Broken rules. Rules that are sealed show in the joined text whether any of them is broken: if the joined text
compiles, each of them does alone, and so do those that are left when the first ones are dropped.

Bounds of repetitions come first. In a sealed text they are in order, and so they are in what is read of it: nothing
but a token that repeats a piece makes a loop.
-/
namespace Highlight.Regex

def Pattern.Ascends (p : Pattern) : Prop := p.boundsOrdered = true

lemma Pattern.Ascends.settle {p : Pattern} (h : p.Ascends) (referenced : List Nat) : (p.settle referenced).Ascends := by
  induction p with
  | cat p q ihp ihq | alt p q ihp ihq =>
    obtain ⟨hp,hq⟩ := Bool.and_eq_true_iff.mp h
    exact Bool.and_eq_true_iff.mpr ⟨ihp hp,ihq hq⟩
  | loop p least most greedy ih =>
    obtain ⟨hp,hbounds⟩ := Bool.and_eq_true_iff.mp h
    exact Bool.and_eq_true_iff.mpr ⟨ih hp,hbounds⟩
  | group n p ih | look direction negated settled p ih | atomic settled p ih => exact ih h
  | empty | set s | assert a | backref n => rfl

lemma Pattern.composes_ascends : Pattern.Composes Pattern.Ascends where
  empty := rfl
  cat hp hq := Bool.and_eq_true_iff.mpr ⟨hp,hq⟩
  alt := Bool.and_eq_true_iff
  look _ _ _ hp := hp
  atomic _ hp := hp

namespace Reader

variable {foreign own : List String} {r r' : Reader} {x : Lexeme}

lemma All.refer {n : Nat} (h : r.All Pattern.Ascends) (hr : r.refer n = .ok r') : r'.All Pattern.Ascends := by
  obtain ⟨-,rfl⟩ := eq_push_of_refer hr
  have hnoted : ({ r with referenced := n :: r.referenced } : Reader).All Pattern.Ascends :=
    ⟨h.pending,h.current,h.outer⟩
  exact hnoted.push (p := ⟨.backref n,true⟩) rfl

/-- Tokens that may stand in a sealed text keep the bounds in order. -/
lemma All.ascends_apply (h : r.All Pattern.Ascends) (hx : x.OpensNone) (hs : x.Stands foreign own r.outer.length)
    (hr : r.apply x = .ok r') : r'.All Pattern.Ascends := by
  have hP := Pattern.composes_ascends
  cases x with
  | piece p => exact Except.ok.inj hr ▸ h.push (Pattern.boundsOrdered_of_isAtom hx)
  | flags f =>
    have hset : ({ r with flags := f } : Reader).All Pattern.Ascends := ⟨h.pending,h.current,h.outer⟩
    exact Except.ok.inj hr ▸ hset.push (p := .nothing) rfl
  | bar => exact Except.ok.inj hr ▸ h.endBranch hP
  | close => exact h.close hP (fun _ _ _ hp => hp) hr
  | rounds least most greedy possessive =>
    refine h.repeatPiece hP (fun p hp => Bool.and_eq_true_iff.mpr ⟨hp,?_⟩) hr
    cases most with
    | none => rfl
    | some most => exact decide_eq_true hs
  | atomic => exact Except.ok.inj hr ▸ h.openGroup .atomic
  | look behind negated => exact Except.ok.inj hr ▸ h.openGroup (.look behind negated)
  | capture name =>
    have hopened : ∀ groups names, ({ r with groups, names } : Reader).All Pattern.Ascends :=
      fun _ _ => ⟨h.pending,h.current,h.outer⟩
    exact Except.ok.inj hr ▸ (hopened _ _).openGroup _
  | plain inside =>
    have hset : ({ r with flags := inside } : Reader).All Pattern.Ascends := ⟨h.pending,h.current,h.outer⟩
    exact Except.ok.inj hr ▸ hset.openGroup _
  | numberRef n => exact All.refer (r := { r with numbered := true }) ⟨h.pending,h.current,h.outer⟩ hr
  | nameRef name =>
    obtain ⟨n,hn⟩ := Within.refer_of_referByName hr
    exact h.refer hn

end Reader
end Highlight.Regex

namespace Highlight.Rules

open Regex

variable {named : Bool} {f : Flags} {foreign : List String} {cs : List Char} {r r' : Reader} {n : Nat} {x : Part}

lemma ascends_readAll (h : r.All Pattern.Ascends) (hr : r.Sound named) (hfits : FitsFrom named r.outer.length cs)
    (hs : SealedFrom foreign (namesOf r) r.outer.length cs) (hrun : r.readAll n cs = .ok r') :
    r'.All Pattern.Ascends := by
  induction n generalizing r cs with
  | zero => exact Except.ok.inj hrun ▸ h
  | succ n ih =>
    cases cs with
    | nil =>
      rw [readAll_nil hr.extended] at hrun
      exact Except.ok.inj hrun ▸ h
    | cons c rest =>
      rw [readAll_cons hr.extended hfits.noComment,except_bind_eq_ok] at hrun
      obtain ⟨⟨r₁,rest₁⟩,htoken,hrun⟩ := hrun
      obtain ⟨-,x,hlex,happly⟩ := readToken_eq_ok.mp htoken
      have hx := lexeme_lexes hr.extended hfits hlex
      obtain ⟨hr₁,-,hdepth⟩ := hr.apply hx.sound happly
      obtain ⟨hstands,hs₁⟩ := hx.sealedFrom foreign (namesOf r) hs
      refine ih (h.ascends_apply hx.sound.opensNone hstands happly) hr₁ ?_ ?_ hrun
      · rw [hdepth]
        exact hx.fits
      · rw [namesOf_apply happly,hdepth]
        exact hs₁

/-- The bounds in a sealed rule are in order. -/
theorem Part.Proper.ordered (h : x.Proper f named) (hx : f.extended = false) (hs : SealedFrom foreign [] 0 x.text) :
    Ordered x.regex := by
  obtain ⟨n,hn,hrun⟩ := h.reads.run
  obtain ⟨branches,whole,hcontents,hwhole⟩ := h.reads.contents
  have hall := ascends_readAll (r := { flags := f }) ⟨nofun,⟨nofun,nofun⟩,nofun⟩ (sound_start hx named) h.fits hs hrun
  have hpattern : x.pattern.Ascends := hwhole ▸ (hall.contents Pattern.composes_ascends hcontents).2
  have hsettled : x.regex.pattern.Ascends := hpattern.settle _
  unfold Ordered
  split
  · exact hsettled
  · exact Pattern.settledBoundsOrdered_of_boundsOrdered hsettled

end Highlight.Rules

namespace Highlight.Rules

open Regex

variable {named ic : Bool} {f : Flags} {foreign : List String} {cs : List Char} {r r' q : Reader} {n m : Nat} {x : Part}
  {source own : String} {rules : List Rule} {g : Regex}

section Alone

/-- The reader needs no more tokens than there are characters. -/
lemma readAll_bound (h : r.Sound named) (hfits : FitsFrom named r.outer.length cs) (hn : cs.length < n)
    (hm : cs.length < m) (hrun : r.readAll n cs = .ok r') : r.readAll m cs = .ok r' := by
  induction n generalizing r cs m with
  | zero => exact absurd hn (Nat.not_lt_zero _)
  | succ n ih =>
    obtain ⟨m,rfl⟩ := Nat.exists_eq_add_one_of_ne_zero (Nat.ne_of_gt (Nat.zero_lt_of_lt hm))
    cases cs with
    | nil =>
      rw [readAll_nil h.extended] at hrun ⊢
      exact hrun
    | cons c rest =>
      rw [readAll_cons h.extended hfits.noComment,except_bind_eq_ok] at hrun
      obtain ⟨⟨r₁,rest₁⟩,htoken,hrun⟩ := hrun
      obtain ⟨-,y,hlex,happly⟩ := readToken_eq_ok.mp htoken
      have hy := lexeme_lexes h.extended hfits hlex
      obtain ⟨h₁,-,hdepth⟩ := h.apply hy.sound happly
      have hlen := hy.length_le
      rw [readAll_cons h.extended hfits.noComment,htoken]
      exact ih h₁ (hdepth ▸ hy.fits) (Nat.lt_of_le_of_lt hlen (Nat.lt_of_succ_lt_succ hn))
        (Nat.lt_of_le_of_lt hlen (Nat.lt_of_succ_lt_succ hm)) hrun

/-- A text that does not start with bounds of a repetition is read after flags as from the start. -/
lemma readAll_after_flags (hx : f.extended = false) (hfits : FitsFrom named 0 cs) (hrounds : startsRounds cs = false)
    (h : ({ flags := f } : Reader).readAll n cs = .ok r) :
    ∃ r', (afterFlags f).readAll n cs = .ok r' ∧ r'.flush = r.flush := by
  cases n with
  | zero =>
    obtain rfl := Except.ok.inj h
    exact ⟨afterFlags f,rfl,rfl⟩
  | succ n =>
    cases cs with
    | nil =>
      rw [readAll_nil hx] at h
      obtain rfl := Except.ok.inj h
      exact ⟨afterFlags f,readAll_nil hx,rfl⟩
    | cons c rest =>
      refine ⟨r,?_,rfl⟩
      have htoken : (afterFlags f).readToken c rest = ({ flags := f } : Reader).readToken c rest := by
        have hlex : lexeme f true c rest = lexeme f false c rest := by
          by_cases hc : c = '\x7b'
          · subst hc
            have hnone : readBounds? false rest = none := by simpa [startsRounds] using hrounds
            simp only [lexeme,hx,hnone]
          · exact lexeme_pending hc
        unfold Reader.readToken
        have hafter : lexeme (afterFlags f).flags (afterFlags f).pending.isSome c rest = lexeme f false c rest := hlex
        rw [hafter]
        simp only [apply_afterFlags]
        rfl
      have hx' : (afterFlags f).flags.extended = false := hx
      rw [readAll_cons hx hfits.noComment] at h
      rw [readAll_cons hx' hfits.noComment,htoken]
      exact h

/-- A sealed rule that is read alone compiles alone. -/
lemma Part.Proper.compileRule (h : x.Proper (ruleFlags ic) named) (hs : Sealed named foreign x.text)
    (hsource : source.toList = x.text) : Regex.compileRule source ic = .ok x.regex := by
  obtain ⟨n,hn,hrun⟩ := h.reads.run
  obtain ⟨branches,whole,hcontents,hwhole⟩ := h.reads.contents
  obtain ⟨m,hm,hread⟩ := readRule_eq source ic
  rw [hsource] at hm hread
  have hrun' := readAll_bound (sound_start rfl named) hs.fits hn hm hrun
  obtain ⟨r,hafter,hflush⟩ := readAll_after_flags rfl hs.fits hs.rounds hrun'
  have hfinish : r.finish = .ok x.pattern := by
    refine finish_eq_ok.mpr ⟨?_,branches,whole,?_,hwhole⟩
    · rw [← r.flush_outer,hflush,x.reader.flush_outer,h.reads.outer]
    · rw [← r.contents_flush,hflush,x.reader.contents_flush,hcontents]
  have hregex : x.regex = regexOf r x.pattern := by
    have hreferenced : r.referenced = x.reader.referenced := by
      rw [← r.flush_referenced,hflush,x.reader.flush_referenced]
    have hgroups : r.groups = x.reader.groups := by rw [← r.flush_groups,hflush,x.reader.flush_groups]
    rw [Part.regex,regexOf,regexOf,hreferenced,hgroups]
  rw [compileRule_eq,hread,hafter]
  exact ofReader_eq_ok.mpr ⟨x.pattern,hfinish,hregex,h.ordered rfl hs.through⟩

/-- A text that is read alone under any flags. -/
def ReadAlone (named : Bool) (text : List Char) : Prop :=
  ∀ f : Flags, f.extended = false → ∃ x : Part, x.text = text ∧ x.Proper f named

lemma Part.Proper.readAlone (h : x.Proper f named) (hx : f.extended = false) : ReadAlone named x.text :=
  fun _ hx' => h.anyFlags hx hx'

/-- Texts that are read alone under any flags are read in turn. -/
lemma exists_properInTurn {texts : List (List Char)} (h : ∀ text ∈ texts, ReadAlone named text)
    (hroom : groupsInAll (texts.map groupCount) < UInt64.size) (hx : f.extended = false) :
    ∃ xs : List Part, xs.map Part.text = texts ∧ ProperInTurn named f xs := by
  induction texts generalizing f with
  | nil => exact ⟨[],rfl,trivial⟩
  | cons text texts ih =>
    rw [List.map_cons,groupsInAll] at hroom
    obtain ⟨x,rfl,hproper⟩ := h text List.mem_cons_self f hx
    obtain ⟨xs,rfl,hturn⟩ := ih (fun text htext => h text (List.mem_cons_of_mem _ htext)) (by omega)
      (hproper.sound hx (by omega)).1.extended
    exact ⟨x :: xs,rfl,hproper,hturn⟩

/-- Rules that are read in turn are each read with the flags that those before leave. -/
lemma ProperInTurn.exists_proper {xs : List Part} (h : ProperInTurn named f xs) (hx : f.extended = false)
    (hroom : groupsInAll (xs.map (fun x => groupCount x.text)) < UInt64.size) :
    ∀ x ∈ xs, ∃ f, f.extended = false ∧ x.Proper f named := by
  intro x hmem
  induction xs generalizing f with
  | nil => exact absurd hmem List.not_mem_nil
  | cons y xs ih =>
    rw [List.map_cons,groupsInAll] at hroom
    rcases List.mem_cons.mp hmem with rfl | hmem
    · exact ⟨f,hx,h.1⟩
    · exact ih h.2 (h.1.sound hx (by omega)).1.extended (by omega) hmem

end Alone

section Lists

/-- Rules whose patterns are sealed one after the other, with room to move their references. -/
structure SealedRules (named : Bool) (rules : List Rule) : Prop where
  patterns : SealedInTurn named [] (rules.map (·.pattern.toList))
  room : groupsInAll (rules.map (fun rule => countGroups rule.pattern)) < halfRange

instance {named : Bool} {rules : List Rule} : Decidable (SealedRules named rules) :=
  decidable_of_iff (SealedInTurn named [] (rules.map (·.pattern.toList)) ∧
      groupsInAll (rules.map (fun rule => countGroups rule.pattern)) < halfRange)
    ⟨fun h => ⟨h.1,h.2⟩,fun h => ⟨h.patterns,h.room⟩⟩

lemma SealedInTurn.exists_sealed {texts : List (List Char)} (h : SealedInTurn named foreign texts) :
    ∀ text ∈ texts, ∃ foreign, Sealed named foreign text := by
  induction texts generalizing foreign with
  | nil => nofun
  | cons text texts ih =>
    intro text' hmem
    rcases List.mem_cons.mp hmem with rfl | hmem
    · exact ⟨foreign,h.1⟩
    · exact ih h.2 text' hmem

lemma SealedRules.texts_room (h : SealedRules named rules) :
    groupsInAll ((rules.map (·.pattern.toList)).map groupCount) < halfRange := by
  have hroom := h.room
  simp only [countGroups_eq] at hroom
  rwa [List.map_map]

/-- If the joined text of sealed rules compiles, each rule is read alone. -/
lemma SealedRules.readAlone (h : SealedRules named rules)
    (hg : Regex.compileRule (join (rules.map Rule.pattern) "|").source ic = .ok g) :
    ∀ rule ∈ rules, ReadAlone named rule.pattern.toList := by
  obtain ⟨n,hn,hread⟩ := readRule_eq (join (rules.map Rule.pattern) "|").source ic
  rw [compileRule_eq,except_bind_eq_ok] at hg
  obtain ⟨r,hr,-⟩ := hg
  have htexts : (rules.map Rule.pattern).map String.toList = rules.map (·.pattern.toList) := List.map_map
  rw [join_source,htexts] at hn hread
  have hready : Ready (ruleFlags ic) named (afterFlags (ruleFlags ic)) := ⟨rfl,rfl,rfl,fun _ => rfl,fun _ => rfl⟩
  have hroom := h.texts_room
  obtain ⟨xs,hxs,hturn⟩ := exists_parts_of_readAll rfl hready h.patterns nofun
    (Nat.lt_of_le_of_lt (Nat.le_of_eq (Nat.zero_add _)) hroom) hn (hread.symm.trans hr)
  rw [← hxs,List.map_map] at hroom
  intro rule hrule
  have hmem : rule.pattern.toList ∈ xs.map Part.text := hxs ▸ List.mem_map_of_mem hrule
  obtain ⟨x,hx,hsame⟩ := List.mem_map.mp hmem
  obtain ⟨f,hf,hproper⟩ := hturn.exists_proper rfl (Nat.lt_trans hroom halfRange_lt) x hx
  exact hsame ▸ hproper.readAlone hf

lemma SealedRules.exists_sealed (h : SealedRules named rules) {rule : Rule} (hrule : rule ∈ rules) :
    ∃ foreign, Sealed named foreign rule.pattern.toList :=
  h.patterns.exists_sealed _ (List.mem_map_of_mem (f := (·.pattern.toList)) hrule)

/-- If the joined text of sealed rules compiles, each rule compiles alone. -/
theorem SealedRules.compiles (h : SealedRules named rules)
    (hg : Regex.compileRule (join (rules.map Rule.pattern) "|").source ic = .ok g) {rule : Rule} (hrule : rule ∈ rules) :
    ∃ g, Regex.compileRule rule.pattern ic = .ok g := by
  obtain ⟨x,hx,hproper⟩ := h.readAlone hg rule hrule (ruleFlags ic) rfl
  obtain ⟨foreign,hs⟩ := h.exists_sealed hrule
  exact ⟨x.regex,hproper.compileRule (hx ▸ hs) hx.symm⟩

/-- If the joined text of sealed rules compiles, so does that of those rules that are left without the first ones. -/
theorem SealedRules.compiles_drop (h : SealedRules named rules)
    (hg : Regex.compileRule (join (rules.map Rule.pattern) "|").source ic = .ok g) {k : Nat} (hk : rules.drop k ≠ []) :
    ∃ g, Regex.compileRule (join ((rules.drop k).map Rule.pattern) "|").source ic = .ok g := by
  have halone := h.readAlone hg
  have hroom : groupsInAll (((rules.drop k).map (·.pattern.toList)).map groupCount) < UInt64.size := by
    rw [List.map_drop,List.map_drop]
    exact Nat.lt_of_le_of_lt (groupsInAll_drop_le k _) (Nat.lt_trans h.texts_room halfRange_lt)
  have htexts : ∀ text ∈ (rules.drop k).map (·.pattern.toList), ReadAlone named text := by
    intro text htext
    obtain ⟨rule,hrule,rfl⟩ := List.mem_map.mp htext
    exact halone rule (List.mem_of_mem_drop hrule)
  obtain ⟨xs,hxs,hturn⟩ := exists_properInTurn (f := ruleFlags ic) htexts hroom rfl
  have hne : xs ≠ [] := by
    rintro rfl
    exact hk (List.map_eq_nil_iff.mp hxs.symm)
  rw [← hxs,List.map_map] at hroom
  have hordered : ∀ x ∈ xs, Ordered x.regex := by
    intro x hx
    obtain ⟨f,hf,hproper⟩ := hturn.exists_proper rfl hroom x hx
    have hmem : x.text ∈ (rules.drop k).map (·.pattern.toList) := hxs ▸ List.mem_map_of_mem hx
    obtain ⟨rule,hrule,hsame⟩ := List.mem_map.mp hmem
    obtain ⟨foreign,hs⟩ := h.exists_sealed (List.mem_of_mem_drop hrule)
    have hs : Sealed named foreign x.text := hsame ▸ hs
    exact hproper.ordered hf hs.through
  have hsource : (join ((rules.drop k).map Rule.pattern) "|").source.toList = joinChars 0 (xs.map Part.text) := by
    rw [join_source,hxs,List.map_map]
    rfl
  obtain ⟨groups,hcompiles⟩ := compile_parts hne hturn hordered hroom hsource
  exact ⟨_,hcompiles⟩

end Lists

section Sets

variable {set : RuleSet} {text : Source} {start first : Nat} {rule : Rule}

lemma RuleSet.exists_compileRule_of_build (hne : rules ≠ []) (hset : RuleSet.build rules ic = .ok set) :
    ∃ g, Regex.compileRule (join (rules.map Rule.pattern) "|").source ic = .ok g := by
  unfold RuleSet.build at hset
  split at hset
  · cases hset
  · rename_i full hfull
    rw [Matcher.build,if_neg (by simpa using hne)] at hfull
    dsimp only at hfull
    split at hfull
    · exact ⟨_,‹_›⟩
    · cases hfull

/-- Of sealed rules that make a rule set, each matcher can be built. -/
theorem SealedRules.exists_matcher (h : SealedRules named rules) (hset : RuleSet.build rules ic = .ok set) (k : Nat) :
    ∃ m, Matcher.build (rules.drop k) k ic = .ok m := by
  by_cases hk : rules.drop k = []
  · rw [hk]
    exact ⟨_,rfl⟩
  · have hne : rules ≠ [] := by
      rintro rfl
      exact hk List.drop_nil
    obtain ⟨g,hg⟩ := RuleSet.exists_compileRule_of_build hne hset
    obtain ⟨g,hg⟩ := h.compiles_drop hg hk
    exact ⟨_,Matcher.build_eq hk hg⟩

end Sets
end Highlight.Rules
