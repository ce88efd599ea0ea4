import Highlight.Proofs.Regex.Alternatives
import Highlight.Proofs.Rules.Enclosed

/-!
The text that joins several rules. It is read rule by rule: each is read in its own group as it is
alone, and the groups become the alternatives of one pattern.
-/
namespace Highlight.Rules

open Regex

/-- The texts of rules as alternatives, each in a group of its own, after `o` groups. -/
def joinChars (o : Nat) : List (List Char) → List Char
  | [] => []
  | [p] => '(' :: inGroup (o + 1) [] p
  | p :: rest => '(' :: inGroup (o + 1) ('|' :: joinChars (o + 1 + groupCount p) rest) p

lemma wrapFrom_toList (o : Nat) (p : String) :
    ("(" ++ shiftReferences o p ++ ")").toList = '(' :: inGroup o [] p.toList := by
  rw [String.toList_append,String.toList_append,shiftReferences_toList]
  rfl

lemma wrapFrom_groups (o : Nat) (ps : List String) :
    (wrapFrom o ps).map Prod.snd = groupsFrom o (ps.map countGroups) := by
  induction ps generalizing o with
  | nil => rfl
  | cons p ps ih => exact congrArg ((o + 1) :: ·) (ih _)

lemma inGroup_append (o : Nat) (tail cs : List Char) :
    inGroup o [] cs ++ tail = inGroup o tail cs := by
  rw [inGroup,inGroup,List.append_assoc]
  rfl

lemma intercalate_wrapFrom (o : Nat) (ps : List String) :
    ['|'].intercalate (((wrapFrom o ps).map Prod.fst).map String.toList) =
      joinChars o (ps.map String.toList) := by
  induction ps generalizing o with
  | nil => rfl
  | cons p ps ih =>
    cases ps with
    | nil => exact (List.intercalate_singleton).trans (wrapFrom_toList (o + 1) p)
    | cons q ps =>
      have htail := ih (o + 1 + countGroups p)
      simp only [wrapFrom,List.map_cons,wrapFrom_toList,List.intercalate_cons_cons] at htail ⊢
      rw [htail,List.cons_append,List.cons_append,List.append_assoc,inGroup_append]
      rfl

/-- The source of joined rules. -/
theorem join_source (ps : List String) :
    (join ps "|").source.toList = joinChars 0 (ps.map String.toList) := by
  rw [← intercalate_wrapFrom]
  exact String.toList_intercalate

/-- A rule as it is read alone. -/
structure Part where
  text : List Char
  reader : Reader
  pattern : Pattern

/-- The groups that joined rules refer to. -/
def references (o : Nat) : List Part → List Nat
  | [] => []
  | x :: rest => references (o + 1 + x.reader.groups) rest ++
      x.reader.referenced.map (shiftGroup (o + 1))

/-- What a reader puts around the next rule. -/
def around (r : Reader) : Enclosure where
  offset := r.groups + 1
  names := r.names
  numbered := r.numbered
  referenced := r.referenced
  kind := .capture (r.groups + 1)
  before := []
  outer := [r.flush.current]

/-- A reader before the next rule. -/
structure Ready (f : Flags) (named : Bool) (r : Reader) : Prop where
  flags : r.flags = f
  outer : r.outer = []
  pieces : r.flush.current.pieces = []
  suits : (around r).Suits named

/-- A reader after a rule. -/
def after (r : Reader) (x : Part) : Reader :=
  { (around r).embed x.reader with
    pending := some ⟨.group (r.groups + 1) (x.pattern.renumber (r.groups + 1)),true⟩
    current := r.flush.current
    outer := [] }

/-- What is known of a rule that is read alone. -/
structure Part.Proper (f : Flags) (named : Bool) (x : Part) : Prop where
  reads : ReadsAs f x.text x.reader x.pattern
  fits : FitsFrom named 0 x.text

/-- What is known of rules of which each is read alone, with the flags that the one before leaves. -/
def ProperInTurn (named : Bool) : Flags → List Part → Prop
  | _, [] => True
  | f, x :: xs => x.Proper f named ∧ ProperInTurn named x.reader.flags xs

variable {f : Flags} {named : Bool} {r : Reader} {x : Part} {tail : List Char} {n m : Nat}

lemma sound_start (hx : f.extended = false) (named : Bool) :
    ({ flags := f } : Reader).Sound named where
  extended := hx
  outside := by
    intro k hk f hf
    rw [List.mem_singleton.mp hk] at hf
    cases hf
    rfl
  numbered _ := rfl
  names _ := rfl
  referenced := nofun
  pending := nofun
  current := ⟨trivial,nofun,nofun⟩
  outer := nofun

/-- No rule starts with a question mark: it would have nothing to repeat. -/
lemma Part.Proper.head_ne (h : x.Proper f named) (hx : f.extended = false) :
    x.text.head? ≠ some '?' := by
  intro hhead
  obtain ⟨rest,hrest⟩ := List.head?_eq_some_iff.mp hhead
  obtain ⟨n,hn,hr⟩ := h.reads.run
  rw [hrest] at hn hr
  cases n with
  | zero => cases hn
  | succ n =>
    have hfits := h.fits
    rw [hrest] at hfits
    rw [readAll_cons hx hfits.noComment,except_bind_eq_ok] at hr
    obtain ⟨⟨r,rest'⟩,htoken,-⟩ := hr
    obtain ⟨-,y,hlex,happly⟩ := readToken_eq_ok.mp htoken
    obtain ⟨rest₁,-,hlex⟩ := except_bind_eq_ok.mp hlex
    obtain ⟨rfl,-⟩ := Prod.mk.inj (Except.ok.inj hlex)
    cases happly

lemma openCapture_around (h : Ready f named r) :
    r.openCapture none = (around r).embed { flags := f } := by
  obtain ⟨rfl,houter,-,-⟩ := h
  obtain ⟨flags,groups,names,numbered,referenced,pending,current,outer⟩ := r
  obtain rfl : outer = [] := houter
  cases pending with
  | none => simp [Reader.openCapture,Reader.openGroup,Reader.flush,Enclosure.embed,around,
      Enclosure.group,Enclosure.stack]
  | some p => simp [Reader.openCapture,Reader.openGroup,Reader.flush,Enclosure.embed,around,
      Enclosure.group,Enclosure.stack]

lemma close_around (hr : Ready f named r) (h : x.Proper f named) (hs : x.reader.Sound named) :
    ((around r).embed x.reader).close = .ok (after r x) := by
  obtain ⟨branches,whole,hcontents,hwhole⟩ := h.reads.contents
  have houter : ((around r).embed x.reader).outer = [r.flush.current] := by
    simp only [Enclosure.embed,h.reads.outer]
    rfl
  have hkind : ((around r).embed x.reader).current.kind = .capture (r.groups + 1) := by
    simp only [Enclosure.embed,h.reads.outer]
    rfl
  unfold Reader.close
  rw [houter]
  dsimp only
  rw [Enclosure.contents_embed (fun _ => hr.suits.unmixed hs) (fun _ => rfl) hcontents,hkind,after,
    ← hwhole]
  rfl

/-- A rule in its group leads to the reader after it. -/
lemma readAll_part (hx : f.extended = false) (hr : Ready f named r) (h : x.Proper f named)
    (hroom : r.groups + 1 + groupCount x.text < UInt64.size)
    (hm : (inGroup (r.groups + 1) tail x.text).length + 1 < m) :
    x.reader.Sound named ∧ x.reader.groups = groupCount x.text ∧ ∃ m', tail.length < m' ∧
      r.readAll m ('(' :: inGroup (r.groups + 1) tail x.text) = (after r x).readAll m' tail := by
  have hextended : r.flags.extended = false := by rw [hr.flags,hx]
  have hhead : (inGroup (r.groups + 1) tail x.text).head? ≠ some '?' :=
    fun hin => h.head_ne hx (head?_of_inGroup (by decide) hin)
  have hcomment : NoComment ('(' :: inGroup (r.groups + 1) tail x.text) := by
    rintro ⟨cs,hcs⟩
    exact hhead (by rw [← (List.cons.inj hcs).2]; rfl)
  have hopen : r.readToken '(' (inGroup (r.groups + 1) tail x.text) =
      .ok ((around r).embed { flags := f },inGroup (r.groups + 1) tail x.text) := by
    refine readToken_eq_ok.mpr ⟨?_,.capture none,lexeme_capture hextended hhead
      h.fits.noComment_inGroup,congrArg Except.ok (openCapture_around hr)⟩
    rw [hr.outer]
    decide
  obtain ⟨n,hn,hrun⟩ := h.reads.run
  cases m with
  | zero => cases hm
  | succ m =>
    rw [readAll_cons hextended hcomment,hopen]
    obtain ⟨hs,hgroups,m',hm',hall⟩ := readAll_inGroup (e := around r) hr.suits rfl
      (sound_start hx named) h.fits hrun hn (by simp only [around]; omega)
      (Nat.lt_of_succ_lt_succ hm)
    refine ⟨hs,hgroups.trans (Nat.zero_add _),m' - 1,by omega,?_⟩
    cases m' with
    | zero => cases hm'
    | succ m' =>
      have hclose : ((around r).embed x.reader).readToken ')' tail = .ok (after r x,tail) :=
        readToken_eq_ok.mpr ⟨by simp,.close,rfl,close_around hr h hs⟩
      have hparen : NoComment (')' :: tail) := noComment_of_head (by simp)
      have hextended' : ((around r).embed x.reader).flags.extended = false := hs.extended
      rw [readAll_cons hextended' hparen,hclose] at hall
      exact hall

lemma after_flush (hr : Ready f named r) : (after r x).flush.current = { r.flush.current with
    pieces := [⟨.group (r.groups + 1) (x.pattern.renumber (r.groups + 1)),true⟩] } := by
  simp only [Reader.flush,after,reduceCtorEq,if_false]
  have hpieces := hr.pieces
  simp only [Reader.flush] at hpieces
  rw [hpieces]

/-- After a rule and a bar the reader is ready again, with the flags that the rule leaves. -/
lemma ready_endBranch (hr : Ready f named r) (hs : x.reader.Sound named) :
    Ready x.reader.flags named (after r x).endBranch := by
  have hflush : (after r x).endBranch.flush = (after r x).endBranch :=
    Reader.flush_eq_self (after r x).flush_pending
  refine ⟨?_,?_,?_,⟨fun hn => ?_,fun hn => ?_⟩⟩
  · exact (after r x).flush_flags
  · exact (after r x).flush_outer
  · rw [hflush]
    rfl
  · have hnumbered : (after r x).endBranch.numbered = (x.reader.numbered || r.numbered) :=
      (after r x).flush_numbered
    rw [around,hnumbered,hs.numbered hn,Bool.false_or]
    exact hr.suits.numbered hn
  · have hnames : (after r x).endBranch.names =
        x.reader.names.map (fun n => (n.1,shiftGroup (r.groups + 1) n.2)) ++ r.names :=
      (after r x).flush_names
    rw [around,hnames,hs.names hn,List.map_nil,List.nil_append]
    exact hr.suits.names hn

lemma endBranch_branches (hr : Ready f named r) : (after r x).endBranch.current.branches =
    .group (r.groups + 1) (x.pattern.renumber (r.groups + 1)) :: r.current.branches := by
  simp only [Reader.endBranch,after_flush hr,Reader.flush_branches]
  rfl

/-- After the last rule, the alternatives are those before it and its own. -/
lemma finish_of_after (hr : Ready f named r) (hs : x.reader.Sound named) : (after r x).finish =
    .ok (.alts (.group (r.groups + 1) (x.pattern.renumber (r.groups + 1)) ::
      r.current.branches).reverse) := by
  have hmixed : ((after r x).numbered && !(after r x).names.isEmpty) = false :=
    hr.suits.unmixed hs
  refine finish_eq_ok.mpr ⟨rfl,?_⟩
  unfold Reader.contents
  rw [after_flush hr,← r.flush_branches]
  dsimp only
  cases r.flush.current.branches with
  | nil =>
    dsimp only
    rw [hmixed]
    exact ⟨_,_,rfl,rfl⟩
  | cons p ps => exact ⟨_,_,rfl,rfl⟩

/-- The parts of joined rules, by their numbers of groups and their patterns. -/
def sizes (xs : List Part) : List (Nat × Pattern) := xs.map (fun x => (x.reader.groups,x.pattern))

lemma groups_endBranch : (after r x).endBranch.groups = r.groups + 1 + x.reader.groups := by
  have hgroups : (after r x).endBranch.groups = x.reader.groups + (r.groups + 1) :=
    (after r x).flush_groups
  rw [hgroups,Nat.add_comm]

lemma referenced_endBranch : (after r x).endBranch.referenced =
    x.reader.referenced.map (shiftGroup (r.groups + 1)) ++ r.referenced :=
  (after r x).flush_referenced

/-- Groups of several rules in all, with one more around each. -/
def groupsInAll : List Nat → Nat
  | [] => 0
  | k :: ks => k + 1 + groupsInAll ks

lemma le_groupsInAll {k : Nat} {ks : List Nat} (h : k ∈ ks) : k + 1 ≤ groupsInAll ks := by
  induction ks with
  | nil => cases h
  | cons l ks ih =>
    rw [groupsInAll]
    rcases List.mem_cons.mp h with rfl | h
    · omega
    · have hle := ih h
      omega

lemma groupsInAll_drop_le (n : Nat) (ks : List Nat) : groupsInAll (ks.drop n) ≤ groupsInAll ks := by
  induction ks generalizing n with
  | nil => simp
  | cons k ks ih =>
    cases n with
    | zero => exact Nat.le_refl _
    | succ n =>
      have hle := ih n
      simp only [List.drop_succ_cons,groupsInAll]
      omega

/-- The flags stay the same if all rules but the last keep them. -/
lemma properInTurn_of_keep {xs : List Part} (hall : ∀ x ∈ xs, x.Proper f named)
    (hflags : ∀ x ∈ xs.dropLast, x.reader.flags = f) : ProperInTurn named f xs := by
  induction xs with
  | nil => trivial
  | cons x xs ih =>
    refine ⟨hall x List.mem_cons_self,?_⟩
    cases xs with
    | nil => trivial
    | cons y xs =>
      rw [hflags x List.mem_cons_self]
      exact ih (fun z hz => hall z (List.mem_cons_of_mem x hz)) (fun z hz => hflags z (List.mem_cons_of_mem x hz))

/-- Joined rules are read as the alternatives of one pattern. -/
theorem readAll_joinChars (hx : f.extended = false) {xs : List Part} (hne : xs ≠ [])
    (hall : ProperInTurn named f xs) (hr : Ready f named r)
    (hroom : r.groups + groupsInAll (xs.map (fun x => groupCount x.text)) < UInt64.size)
    (hm : (joinChars r.groups (xs.map Part.text)).length < m) :
    ∃ r', r.readAll m (joinChars r.groups (xs.map Part.text)) = .ok r' ∧
      r'.finish = .ok (.alts (r.current.branches.reverse ++ alternatives r.groups (sizes xs))) ∧
        r'.referenced = references r.groups xs ++ r.referenced := by
  induction xs generalizing f r m with
  | nil => exact absurd rfl hne
  | cons x xs ih =>
    obtain ⟨hproper,hrest⟩ := hall
    rw [List.map_cons,groupsInAll] at hroom
    cases xs with
    | nil =>
      have hm : (inGroup (r.groups + 1) [] x.text).length + 1 < m := hm
      obtain ⟨hs,hgroups,m',hm',hpart⟩ := readAll_part hx hr hproper (by omega) hm
      obtain ⟨m',rfl⟩ := Nat.exists_eq_succ_of_ne_zero (Nat.ne_of_gt hm')
      refine ⟨after r x,hpart.trans (readAll_nil hs.extended),?_,?_⟩
      · rw [finish_of_after hr hs,List.reverse_cons]
        rfl
      · rfl
    | cons y xs =>
      have hm : (inGroup (r.groups + 1) ('|' :: joinChars (r.groups + 1 + groupCount x.text)
        ((y :: xs).map Part.text)) x.text).length + 1 < m := hm
      obtain ⟨hs,hgroups,m',hm',hpart⟩ := readAll_part hx hr hproper (by omega) hm
      obtain ⟨m',rfl⟩ := Nat.exists_eq_succ_of_ne_zero (Nat.ne_of_gt (Nat.zero_lt_of_lt hm'))
      have hbar : (after r x).readToken '|' (joinChars (r.groups + 1 + groupCount x.text)
          ((y :: xs).map Part.text)) = .ok ((after r x).endBranch,_) :=
        readToken_eq_ok.mpr ⟨by simp,.bar,rfl,rfl⟩
      have hextended : (after r x).flags.extended = false := hs.extended
      have hrest := ih hextended (List.cons_ne_nil y xs) hrest (ready_endBranch hr hs) (m := m')
      rw [groups_endBranch,referenced_endBranch,endBranch_branches hr,hgroups] at hrest
      obtain ⟨r',hrun,hfinish,hreferenced⟩ := hrest (by omega) (Nat.lt_of_succ_lt_succ hm')
      refine ⟨r',?_,?_,?_⟩
      · rw [readAll_cons hextended (noComment_of_head (by simp)),hbar] at hpart
        exact hpart.trans hrun
      · rw [hfinish,List.reverse_cons,List.append_assoc,← hgroups]
        rfl
      · rw [hreferenced,← hgroups,← List.append_assoc]
        rfl

end Highlight.Rules
