import Highlight.Proofs.Rules.Appended
import Highlight.Proofs.Rules.First

/-!
The pattern of two texts with a bar between them. It matches where one of the texts matches alone.
-/
namespace Highlight.Rules

open Regex

/-- Readers at the ends of texts that may stand on both sides of a bar: no reference in the second comes
to mean a group of the first, and no reference by number comes to stand beside named groups. -/
structure Beside (a b : Reader) : Prop where
  references : a.groups = 0 ∨ b.referenced = []
  names : a.numbered = false ∨ a.names = [] ∧ b.names = []

instance (a b : Reader) : Decidable (Beside a b) :=
  decidable_of_iff
    ((a.groups = 0 ∨ b.referenced = []) ∧ (a.numbered = false ∨ a.names = [] ∧ b.names = []))
    ⟨fun h => ⟨h.1,h.2⟩,fun h => ⟨h.references,h.names⟩⟩

/-- What a reader that has come to a bar puts around what follows. -/
def afterBar (a : Reader) : Enclosure where
  offset := a.groups
  names := a.names
  numbered := a.numbered
  referenced := a.referenced
  kind := a.current.kind
  before := a.endBranch.current.branches
  outer := []

variable {a b r r' : Reader} {x : Lexeme} {n m : Nat} {cs : List Char}

lemma endBranch_eq_embed (ha : a.outer = []) :
    a.endBranch = (afterBar a).embed { flags := a.flags } := by
  obtain ⟨pieces,hflush⟩ := a.exists_flush_eq
  simp [Reader.endBranch,hflush,Enclosure.embed,Enclosure.group,Enclosure.stack,afterBar,ha]

namespace Beside

lemma unmixed (h : Beside a b) (ha : a.Coherent) (hb : b.Coherent) (hr : r.Grows b)
    (hmixed : Enclosure.Unmixed r) : Enclosure.Unmixed ((afterBar a).embed r) := by
  have hsplit : Enclosure.Unmixed ((afterBar a).embed r) ↔
      ((r.numbered || a.numbered) && !(r.names.isEmpty && a.names.isEmpty)) = false := by
    have hempty : ((afterBar a).embed r).names.isEmpty = (r.names.isEmpty && a.names.isEmpty) := by
      rw [Bool.eq_iff_iff]
      simp [Enclosure.embed,afterBar]
    rw [Enclosure.Unmixed,hempty]
    rfl
  rw [hsplit]
  rcases h.names with hnumbered | ⟨hnames,hnames'⟩
  · rw [hnumbered,Bool.or_false]
    rcases h.references with hgroups | hreferenced
    · rw [ha.names hgroups,List.isEmpty_nil,Bool.and_true]
      exact hmixed
    · have hr : r.numbered = false := by
        by_contra hr'
        have hnumbered := hr.numbered (by simpa using hr')
        rw [hb.numbered hreferenced] at hnumbered
        cases hnumbered
      rw [hr,Bool.false_and]
  · have hnone : r.names = [] := List.suffix_nil.mp (hnames' ▸ hr.names)
    rw [hnone,hnames]
    exact Bool.and_false _

/-- After the bar a token leads on as it does in the second text alone. -/
lemma apply (h : Beside a b) (ha : a.Coherent) (hb : b.Coherent) (hr : r.Grows b) (hr' : r'.Grows b)
    (hx : x.OpensNone) (happly : r.apply x = .ok r') :
    ((afterBar a).embed r).apply x = .ok ((afterBar a).embed r') := by
  cases hrefers : x.refers with
  | false => exact Enclosure.apply_embed_of_not_refers (h.unmixed ha hb hr) hx hrefers happly
  | true =>
    have hne : b.referenced ≠ [] := by
      intro hnil
      exact (Reader.Grows.apply happly).2 hrefers (List.suffix_nil.mp (hnil ▸ hr'.referenced))
    have hgroups : a.groups = 0 := h.references.resolve_right hne
    have hsame : ∀ n, shiftGroup (afterBar a).offset n = n := by
      intro n
      simp only [afterBar,hgroups,shiftGroup_zero]
    cases x with
    | numberRef n =>
      have hrefer := Enclosure.refer_embed (e := afterBar a) happly
      rw [hsame] at hrefer
      exact hrefer
    | nameRef name =>
      have hnames : ((afterBar a).embed r).names = r.names := by
        have hnone : (afterBar a).names = [] := ha.names hgroups
        simp [Enclosure.embed,hsame,hnone]
      have hrefer : ∀ n, r.refer n = .ok r' →
          ((afterBar a).embed r).refer n = .ok ((afterBar a).embed r') := by
        intro n hn
        have hn := Enclosure.refer_embed (e := afterBar a) hn
        rwa [hsame] at hn
      have happly : r.referByName name = .ok r' := happly
      change ((afterBar a).embed r).referByName name = _
      unfold Reader.referByName at happly ⊢
      rw [hnames]
      split at happly
      · exact hrefer _ happly
      · split at happly
        · exact hrefer _ happly
        · cases happly
    | _ => cases hrefers

/-- After the bar the reader goes through the second text as it does alone. -/
theorem readAll (h : Beside a b) (ha : a.Coherent) (hb : b.Coherent) (hr : r.readAll n cs = .ok b)
    (hn : cs.length < n) (hm : cs.length < m) :
    ((afterBar a).embed r).readAll m cs = .ok ((afterBar a).embed b) := by
  induction n generalizing r cs m with
  | zero => exact absurd hn (Nat.not_lt_zero _)
  | succ n ih =>
    obtain ⟨m,rfl⟩ := Nat.exists_eq_add_one_of_ne_zero (Nat.ne_of_gt (Nat.zero_lt_of_lt hm))
    have hgrows := Reader.Grows.readAll hr
    refine Reader.readAll_succ_eq_ok.mpr ?_
    rcases Reader.readAll_succ_eq_ok.mp hr with ⟨hs,rfl⟩ | ⟨c,rest,x,r₁,rest₁,hs,hdepth,hlex,happly,hr⟩
    · exact .inl ⟨hs,rfl⟩
    · have hlen := (skipBlanks_skipped hs).suffix.length_le
      have hlen₁ := (lexeme_reads hlex).1.length_le
      rw [List.length_cons] at hlen
      refine .inr ⟨c,rest,x,(afterBar a).embed r₁,rest₁,hs,?_,?_,?_,ih hr (by omega) (by omega)⟩
      · have hstack : ((afterBar a).embed r).outer.length = r.outer.length := length_stack _ _
        rwa [hstack]
      · have hpending : ((afterBar a).embed r).pending.isSome = r.pending.isSome := Option.isSome_map
        rwa [hpending]
      · exact h.apply ha hb hgrows (Reader.Grows.readAll hr) (lexeme_opensNone hlex) happly

end Beside

section Contents

lemma last_pattern (g : OpenGroup) : g.last.pattern = .cats (g.pieces.reverse.map Piece.pattern) := by
  obtain ⟨kind,branches,pieces⟩ := g
  cases pieces with
  | nil => rfl
  | cons p pieces =>
    cases pieces with
    | nil => rfl
    | cons q pieces => rfl

lemma branches_endBranch (r : Reader) : r.endBranch.current.branches =
    r.flush.current.last.pattern :: r.flush.current.branches := by
  rw [last_pattern]
  rfl

/-- The alternatives of a group, whether or not a bar follows. -/
lemma branches_of_contents {bs : List Pattern} {whole : Piece} (h : r.contents = .ok (bs,whole)) :
    r.endBranch.current.branches.reverse = bs ∧ whole.pattern = .alts bs := by
  rw [branches_endBranch]
  unfold Reader.contents at h
  dsimp only at h
  split at h
  · rename_i hnil
    split at h
    · cases h
    · obtain ⟨rfl,rfl⟩ := Prod.mk.inj (Except.ok.inj h)
      rw [hnil]
      exact ⟨rfl,rfl⟩
  · obtain ⟨rfl,rfl⟩ := Prod.mk.inj (Except.ok.inj h)
    exact ⟨rfl,rfl⟩

lemma exists_contents (h : r.current.branches ≠ []) : ∃ whole,
    r.contents = .ok (r.endBranch.current.branches.reverse,whole) ∧
      whole.pattern = .alts r.endBranch.current.branches.reverse := by
  rw [branches_endBranch]
  rw [← r.flush_branches] at h
  unfold Reader.contents
  dsimp only
  split
  · rename_i hnil
    exact absurd hnil h
  · exact ⟨_,rfl,rfl⟩

/-- The alternatives on both sides of the bar are those of one pattern. -/
lemma finish_afterBar {bs bs' : List Pattern} {whole whole' : Piece} (hb : b.outer = [])
    (ha : a.contents = .ok (bs,whole)) (hcontents : b.contents = .ok (bs',whole')) :
    ((afterBar a).embed b).finish = .ok (.alts (bs ++ bs'.map (Pattern.renumber a.groups))) := by
  obtain ⟨rfl,-⟩ := branches_of_contents ha
  obtain ⟨rfl,-⟩ := branches_of_contents hcontents
  have hbranches : ∀ r : Reader, r.outer = [] → ((afterBar a).embed r).current.branches =
      r.current.branches.map (Pattern.renumber a.groups) ++ a.endBranch.current.branches := by
    intro r hr
    simp only [Enclosure.embed,hr]
    rfl
  have houter : ((afterBar a).embed b).outer = [] := by
    simp only [Enclosure.embed,hb]
    rfl
  have hne : ((afterBar a).embed b).current.branches ≠ [] := by
    rw [hbranches b hb,branches_endBranch]
    simp
  obtain ⟨whole,hwhole,hpattern⟩ := exists_contents hne
  refine finish_eq_ok.mpr ⟨houter,_,whole,hwhole,hpattern.trans (congrArg Pattern.alts ?_)⟩
  have hb' : b.endBranch.outer = [] := b.flush_outer.trans hb
  rw [Enclosure.endBranch_embed,hbranches _ hb',List.reverse_append,List.map_reverse]

end Contents

section Matches

variable {ic plain : Bool} {own inherited : String} {t : Haystack} {s : Spot}

/-- Whether a pattern matches at a position, as a regex of its own. -/
def MatchesAt (pattern : String) (ignoreCase : Bool) (text : Source) (position : Nat) : Prop :=
  ∃ g, Regex.compileRule pattern ignoreCase = .ok g ∧ (g.preferred { text } position).isSome

lemma isSome_end?_iff (rule : Rule) {text : Source} {q : Nat} :
    (rule.end? ic text q).isSome ↔ MatchesAt rule.pattern ic text q := by
  unfold Rule.end? MatchesAt
  cases Regex.compileRule rule.pattern ic with
  | error e => exact ⟨nofun,nofun⟩
  | ok g =>
    rw [Option.isSome_map]
    exact ⟨fun h => ⟨g,rfl,h⟩,fun ⟨_,hg,h⟩ => Except.ok.inj hg ▸ h⟩

instance (pattern : String) (text : Source) (q : Nat) : Decidable (MatchesAt pattern ic text q) :=
  decidable_of_iff _ (isSome_end?_iff ⟨pattern,.ends⟩)

/-- A pattern that may stand before another one and a bar. It leaves the flags as they were. -/
structure Joinable (own inherited : String) (ignoreCase : Bool) : Prop where
  compiles : ∃ g, Regex.compileRule own ignoreCase = .ok g
  compiles_inherited : ∃ g, Regex.compileRule inherited ignoreCase = .ok g
  flags : KeepsFlags ignoreCase own
  beside : ∀ a b, readRule own ignoreCase = .ok a → readRule inherited ignoreCase = .ok b → Beside a b

/-- A test for patterns that may be joined so. -/
def isJoinable (own inherited : String) (ignoreCase : Bool) : Bool :=
  (Regex.compileRule own ignoreCase).toOption.isSome &&
  (Regex.compileRule inherited ignoreCase).toOption.isSome && decide (KeepsFlags ignoreCase own) &&
  match readRule own ignoreCase, readRule inherited ignoreCase with
  | .ok a, .ok b => decide (Beside a b)
  | _, _ => false

lemma Joinable.of_isJoinable (h : isJoinable own inherited ic = true) :
    Joinable own inherited ic := by
  simp only [isJoinable,Bool.and_eq_true,decide_eq_true_eq] at h
  obtain ⟨⟨⟨hown,hinherited⟩,hflags⟩,hbeside⟩ := h
  have hcompiles : ∀ {source : String}, (Regex.compileRule source ic).toOption.isSome →
      ∃ g, Regex.compileRule source ic = .ok g := by
    intro source h
    obtain ⟨g,hg⟩ := Option.isSome_iff_exists.mp h
    exact ⟨g,except_eq_ok_of_toOption hg⟩
  refine ⟨hcompiles hown,hcompiles hinherited,hflags,fun a b ha hb => ?_⟩
  rw [ha,hb] at hbeside
  exact of_decide_eq_true hbeside

lemma within_afterFlags (f : Flags) : (afterFlags f).Within where
  referenced := nofun
  pending p hp := by
    obtain rfl := Option.some.inj hp
    trivial
  current := ⟨trivial,nofun,nofun⟩
  outer := nofun

lemma coherent_afterFlags (f : Flags) : (afterFlags f).Coherent := ⟨fun _ => rfl,fun _ => rfl⟩

lemma ofReader_flush (r : Reader) : Regex.ofReader r.flush = Regex.ofReader r := by
  simp only [Regex.ofReader,Reader.finish,Reader.flush_outer,Reader.contents_flush,
    Reader.flush_referenced,Reader.flush_groups]

/-- Both texts are read one after the other. -/
lemma readRule_barred (ha : readRule own ic = .ok a) (hflags : a.flags = ruleFlags ic)
    (houter : a.outer = []) (hb : readRule inherited ic = .ok b) (h : Beside a b) :
    ∃ b', b'.flush = b.flush ∧ readRule (own ++ "|" ++ inherited) ic = .ok ((afterBar a).embed b') := by
  obtain ⟨n,hn,hread⟩ := readRule_eq own ic
  obtain ⟨m,hm,hread'⟩ := readRule_eq inherited ic
  obtain ⟨k,hk,hread''⟩ := readRule_eq (own ++ "|" ++ inherited) ic
  obtain ⟨b',hb',hflush⟩ := readAll_afterFlags (hread' ▸ hb)
  have htext : (own ++ "|" ++ inherited).toList = barred inherited.toList own.toList := by
    rw [String.toList_append,String.toList_append,List.append_assoc]
    rfl
  rw [hread] at ha
  rw [htext] at hk hread''
  have hextended : a.flags.extended = false := by rw [hflags]; rfl
  obtain ⟨j,hj,hall⟩ := readAll_barred ha hn hextended hk
  obtain ⟨j,rfl⟩ := Nat.exists_eq_add_one_of_ne_zero (Nat.ne_of_gt (Nat.zero_lt_of_lt hj))
  have hbeside : Beside a b' := by
    refine ⟨?_,?_⟩
    · rw [← b'.flush_referenced,hflush,b.flush_referenced]
      exact h.references
    · rw [← b'.flush_names,hflush,b.flush_names]
      exact h.names
  have hcoherent := (Reader.Grows.readAll ha).coherent (coherent_afterFlags _)
  have hcoherent' := (Reader.Grows.readAll hb').coherent ⟨fun _ => rfl,fun _ => rfl⟩
  have hbar : a.readAll (j + 1) ('|' :: inherited.toList) = a.endBranch.readAll j inherited.toList := by
    have hstop : skipBlanks a.flags.extended ('|' :: inherited.toList) = .ok ('|' :: inherited.toList) :=
      skipBlanksWithin_stop (noComment_of_head (by simp)) (fun _ => by decide) _
    rw [readAll_skip hstop,readToken_eq_ok.mpr ⟨by simp,.bar,rfl,rfl⟩]
    rfl
  have hrest := hbeside.readAll hcoherent hcoherent' hb' hm (Nat.lt_of_succ_lt_succ hj)
  refine ⟨b',hflush,?_⟩
  rw [hread'',hall,hbar,endBranch_eq_embed houter,hflags,hrest]

lemma compileRule_barred (ha : readRule own ic = .ok a) (hflags : a.flags = ruleFlags ic)
    (houter : a.outer = []) (hb : readRule inherited ic = .ok b) (h : Beside a b) :
    Regex.compileRule (own ++ "|" ++ inherited) ic = Regex.ofReader ((afterBar a).embed b) := by
  obtain ⟨b',hflush,hread⟩ := readRule_barred ha hflags houter hb h
  calc Regex.compileRule (own ++ "|" ++ inherited) ic
      = Regex.ofReader ((afterBar a).embed b') := by
        rw [compileRule_eq,hread]
        rfl
    _ = Regex.ofReader ((afterBar a).embed b'.flush) := by
        rw [← ofReader_flush,Enclosure.flush_embed]
    _ = Regex.ofReader ((afterBar a).embed b) := by
        rw [hflush,← Enclosure.flush_embed,ofReader_flush]

lemma alts_append_lead? {l l' : List Pattern} (hl : l ≠ []) (hl' : l' ≠ []) :
    (Pattern.alts (l ++ l')).lead? plain t s =
      ((Pattern.alts l).lead? plain t s).or ((Pattern.alts l').lead? plain t s) := by
  rw [Pattern.lead?_alts hl,Pattern.lead?_alts hl',
    Pattern.lead?_alts (List.append_ne_nil_of_left_ne_nil hl l'),List.findSome?_append]

/-- The references of the second text, after those of the first. -/
lemma referenced_afterBar (a b : Reader) : ((afterBar a).embed b).referenced =
    b.referenced.map (shiftGroup a.groups) ++ a.referenced := rfl

/-- The groups of the first text are referred to as in that text alone. -/
lemma namesAlike_first (h : Beside a b) :
    Pattern.NamesAlike 0 a.groups a.referenced ((afterBar a).embed b).referenced := by
  intro n hpos hle
  rw [shiftGroup_zero,referenced_afterBar,List.mem_append]
  rcases h.references with hgroups | hnone
  · omega
  · rw [hnone]
    exact or_iff_right (by simp)

/-- Those of the second text are, with other numbers, as in the second. -/
lemma namesAlike_second (ha : a.Within) :
    Pattern.NamesAlike a.groups b.groups b.referenced ((afterBar a).embed b).referenced := by
  intro n hpos hle
  rw [referenced_afterBar,List.mem_append]
  have hshift : shiftGroup a.groups n = n + a.groups := if_neg (Nat.ne_of_gt hpos)
  constructor
  · rintro (hmem | hmem)
    · obtain ⟨m,hm,heq⟩ := List.mem_map.mp hmem
      exact shiftGroup_inj.mp heq ▸ hm
    · have hle := ha.referenced _ hmem
      omega
  · exact fun hmem => .inl (List.mem_map_of_mem hmem)

section Pair

variable {bs bs' : List Pattern}

/-- The alternatives of both texts are settled as in each text alone. -/
lemma exists_pattern_afterBar (h : Beside a b) (ha : a.Within)
    (hgroups : (Pattern.alts bs).GroupsWithin a.groups)
    (hgroups' : (Pattern.alts bs').GroupsWithin b.groups) (hne : bs ≠ []) (hne' : bs' ≠ []) :
    ∃ l l', l ≠ [] ∧ l' ≠ [] ∧ Pattern.alts l = (regexOf a (.alts bs)).pattern ∧
      Pattern.alts l' = (regexOf b (.alts bs')).pattern.renumber a.groups ∧
      (regexOf ((afterBar a).embed b) (.alts (bs ++ bs'.map (Pattern.renumber a.groups)))).pattern =
        .alts (l ++ l') := by
  refine ⟨bs.map (Pattern.settle ((afterBar a).embed b).referenced),
    (bs'.map (Pattern.renumber a.groups)).map (Pattern.settle ((afterBar a).embed b).referenced),
    by simpa using hne,by simpa using hne',?_,?_,?_⟩
  · rw [← Pattern.settle_alts,Pattern.settle_of_namesAlike (namesAlike_first h) hgroups]
    rfl
  · rw [← Pattern.settle_alts,← Pattern.renumber_alts,
      Pattern.settle_renumber (namesAlike_second ha) hgroups']
    rfl
  · rw [← List.map_append,← Pattern.settle_alts]
    rfl

lemma plain_afterBar (h : Beside a b) (ha : a.Within)
    (hgroups : (Pattern.alts bs).GroupsWithin a.groups)
    (hgroups' : (Pattern.alts bs').GroupsWithin b.groups) :
    (regexOf ((afterBar a).embed b) (.alts (bs ++ bs'.map (Pattern.renumber a.groups)))).plain =
      ((regexOf a (.alts bs)).plain && (regexOf b (.alts bs')).plain) := by
  have hfirst := Pattern.isPlain_of_namesAlike (namesAlike_first h) hgroups
  have hsecond := Pattern.isPlain_renumber (namesAlike_second (b := b) ha) hgroups'
  rw [Pattern.renumber_alts] at hsecond
  simp only [regexOf,← hfirst,← hsecond,Pattern.isPlain_alts,List.all_append]

/-- The bounds stay as they should be. -/
lemma ordered_append {g g' joined : Regex} {l l' : List Pattern} {o : Nat} (hg : Ordered g)
    (hg' : Ordered g') (hl : Pattern.alts l = g.pattern)
    (hl' : Pattern.alts l' = g'.pattern.renumber o) (hpattern : joined.pattern = .alts (l ++ l'))
    (hplain : joined.plain = (g.plain && g'.plain)) : Ordered joined := by
  have hsettled : ∀ {g : Regex}, Ordered g → g.pattern.settledBoundsOrdered = true := by
    intro g hg
    unfold Ordered at hg
    split at hg
    · exact Pattern.settledBoundsOrdered_of_boundsOrdered hg
    · exact hg
  unfold Ordered
  split
  · rename_i hboth
    obtain ⟨hp,hp'⟩ := Bool.and_eq_true_iff.mp (hplain.symm.trans hboth)
    rw [Ordered,if_pos hp,← hl] at hg
    rw [Ordered,if_pos hp',← Pattern.boundsOrdered_renumber g'.pattern,← hl'] at hg'
    rw [Pattern.boundsOrdered_alts] at hg hg'
    rw [hpattern,Pattern.boundsOrdered_alts,List.all_append,hg,hg']
    rfl
  · have hfirst := hsettled hg
    have hsecond := hsettled hg'
    rw [← hl,Pattern.settledBoundsOrdered_alts] at hfirst
    rw [← Pattern.settledBoundsOrdered_renumber g'.pattern,← hl',
      Pattern.settledBoundsOrdered_alts] at hsecond
    rw [hpattern,Pattern.settledBoundsOrdered_alts,List.all_append,hfirst,hsecond]
    rfl

end Pair

/-- A text alone, by what was read of it. -/
lemma exists_reader {source : String} {g : Regex} (h : Regex.compileRule source ic = .ok g) :
    ∃ r bs whole, readRule source ic = .ok r ∧ r.outer = [] ∧ r.contents = .ok (bs,whole) ∧ r.Within ∧
      g = regexOf r (.alts bs) ∧ Ordered g ∧ (Pattern.alts bs).GroupsWithin r.groups ∧ bs ≠ [] := by
  rw [compileRule_eq,except_bind_eq_ok] at h
  obtain ⟨r,hr,h⟩ := h
  obtain ⟨p,hp,rfl,hordered⟩ := ofReader_eq_ok.mp h
  obtain ⟨houter,bs,whole,hcontents,rfl⟩ := finish_eq_ok.mp hp
  obtain ⟨n,-,hread⟩ := readRule_eq source ic
  have hwithin : r.Within := (within_afterFlags _).readAll (hread ▸ hr)
  obtain ⟨hbs,hwhole⟩ := branches_of_contents hcontents
  have hgroups := (hwithin.contents hcontents).2
  rw [hwhole] at hgroups hordered ⊢
  refine ⟨r,bs,whole,hr,houter,hcontents,hwithin,rfl,hordered,hgroups,?_⟩
  rw [← hbs,branches_endBranch]
  simp

lemma isSome_lead?_renumber {p : Pattern} {o i : Nat} :
    ((p.renumber o).lead? plain t { position := i }).isSome =
      (p.lead? plain t { position := i }).isSome := by
  have htraces := Pattern.leads_renumber plain t p _ _ (Spot.Traces.start o i)
  unfold Pattern.lead?
  generalize p.leads plain t { position := i } = l at htraces ⊢
  generalize (p.renumber o).leads plain t { position := i } = l' at htraces ⊢
  cases htraces with
  | nil => rfl
  | cons _ _ => rfl

/-- Whether the regex matches at a position, also where backtracking runs it though it is plain. -/
lemma isSome_lead? {p : Pattern} {text : Source} {q : Nat} (h : Ordered (regexOf r p))
    (hq : q ≤ text.size) (hplain : plain = true → (regexOf r p).plain = true) :
    ((regexOf r p).pattern.lead? plain { text } { position := q }).isSome =
      ((regexOf r p).preferred { text } q).isSome := by
  rw [preferred_eq]
  cases hp : (regexOf r p).plain with
  | false =>
    have hnot : plain = false := by
      cases plain with
      | false => rfl
      | true => exact (hplain rfl).symm.trans hp
    rw [hnot]
  | true =>
    rw [Ordered,if_pos hp] at h
    exact lead?_isSome_of_isPlain (Pattern.isPlain_settle hp) h hq plain true

lemma matchesAt_iff {source : String} {text : Source} {q : Nat} {g : Regex}
    (hg : Regex.compileRule source ic = .ok g) :
    MatchesAt source ic text q ↔ (g.preferred { text } q).isSome := by
  constructor
  · rintro ⟨g',hg',hsome⟩
    obtain rfl := Except.ok.inj (hg.symm.trans hg')
    exact hsome
  · exact fun hsome => ⟨g,hg,hsome⟩

/-- Two joinable patterns with a bar between them compile. They lead where the first of them leads or, if
that leads nowhere, where the second does. -/
theorem exists_barred_leads (h : Joinable own inherited ic) : ∃ (a b : Reader) (p p' : Pattern)
    (joined : Regex), Regex.compileRule own ic = .ok (regexOf a p) ∧ Ordered (regexOf a p) ∧
      Regex.compileRule inherited ic = .ok (regexOf b p') ∧ Ordered (regexOf b p') ∧
      Regex.compileRule (own ++ "|" ++ inherited) ic = .ok joined ∧
      joined.plain = ((regexOf a p).plain && (regexOf b p').plain) ∧
      ∀ plain t s, joined.pattern.lead? plain t s = ((regexOf a p).pattern.lead? plain t s).or
        (((regexOf b p').pattern.renumber a.groups).lead? plain t s) := by
  obtain ⟨g,hg⟩ := h.compiles
  obtain ⟨g',hg'⟩ := h.compiles_inherited
  obtain ⟨a,bs,whole,ha,houter,hcontents,hwithin,rfl,hordered,hgroups,hne⟩ := exists_reader hg
  obtain ⟨b,bs',whole',hb,houter',hcontents',-,rfl,hordered',hgroups',hne'⟩ := exists_reader hg'
  have hbeside := h.beside a b ha hb
  have hflags : a.flags = ruleFlags ic := by
    have hkeeps := h.flags
    rw [KeepsFlags,ha] at hkeeps
    exact Option.some.inj hkeeps
  obtain ⟨l,l',hl,hl',hfirst,hsecond,hpattern⟩ :=
    exists_pattern_afterBar hbeside hwithin hgroups hgroups' hne hne'
  have hplain := plain_afterBar hbeside hwithin hgroups hgroups'
  have hfinish := finish_afterBar houter' hcontents hcontents'
  refine ⟨a,b,_,_,_,hg,hordered,hg',hordered',(compileRule_barred ha hflags houter hb hbeside).trans
    (ofReader_eq_ok.mpr ⟨_,hfinish,rfl,ordered_append hordered hordered' hfirst hsecond hpattern hplain⟩),
    hplain,fun plain t s => ?_⟩
  rw [hpattern,alts_append_lead? hl hl',hfirst,hsecond]

/-- Two joinable patterns with a bar between them match where one of them matches. -/
theorem exists_barred (h : Joinable own inherited ic) : ∃ joined,
    Regex.compileRule (own ++ "|" ++ inherited) ic = .ok joined ∧
    ∀ (text : Source) (q : Nat), q ≤ text.size → ((joined.preferred { text } q).isSome ↔
      MatchesAt own ic text q ∨ MatchesAt inherited ic text q) := by
  obtain ⟨a,b,p,p',joined,hg,hordered,hg',hordered',hjoined,hplain,hleads⟩ := exists_barred_leads h
  refine ⟨joined,hjoined,fun text q hq => ?_⟩
  obtain ⟨hboth,hboth'⟩ : _ ∧ _ := ⟨fun hp => (Bool.and_eq_true_iff.mp (hplain.symm.trans hp)).1,
    fun hp => (Bool.and_eq_true_iff.mp (hplain.symm.trans hp)).2⟩
  rw [preferred_eq,hleads,Option.isSome_or,isSome_lead?_renumber,isSome_lead? hordered hq hboth,
    isSome_lead? hordered' hq hboth',matchesAt_iff hg,matchesAt_iff hg',Bool.or_eq_true]

/-- A pattern before another one and a bar: together they match where one of them matches alone. -/
theorem matchesAt_barred {text : Source} {q : Nat} (h : Joinable own inherited ic)
    (hq : q ≤ text.size) : MatchesAt (own ++ "|" ++ inherited) ic text q ↔
      MatchesAt own ic text q ∨ MatchesAt inherited ic text q := by
  obtain ⟨joined,hjoined,hmatch⟩ := exists_barred h
  rw [matchesAt_iff hjoined]
  exact hmatch text q hq

end Matches

end Highlight.Rules
