import Highlight.Proofs.Rules.Combined
import Highlight.Proofs.Rules.Enclosed
import Highlight.Proofs.Rules.Lifted

/-!
A sealed text that is read in a group is read alone as well. Where the group lets the reader go on, so does the text
alone: it opens all that it closes, and what stands around it has no group that it refers to.
-/
namespace Highlight.Regex

lemma Reader.Sound.unmixed {named : Bool} {r : Reader} (h : r.Sound named) : Enclosure.Unmixed r := by
  cases named with
  | true => rw [Enclosure.Unmixed,h.numbered rfl,Bool.false_and]
  | false =>
    rw [Enclosure.Unmixed,h.names rfl]
    exact Bool.and_false _

namespace Enclosure

variable {named : Bool} {e : Enclosure} {r q : Reader} {x : Lexeme} {o : Nat} {negated : Bool}

lemma lookBack_of_renumber {p p' : Pattern} (h : Reader.lookBack negated (p.renumber o) = .ok p') :
    ∃ p', Reader.lookBack negated p = .ok p' := by
  unfold Reader.lookBack at h ⊢
  rw [Pattern.width?_renumber] at h
  cases hw : p.width? with
  | some width => exact ⟨_,rfl⟩
  | none =>
    rw [hw] at h
    cases h

lemma lookBehind_of_renumber {branches : List Pattern} {p : Pattern}
    (h : Reader.lookBehind negated (branches.map (Pattern.renumber o)) = .ok p) :
    ∃ p, Reader.lookBehind negated branches = .ok p := by
  unfold Reader.lookBehind at h ⊢
  rw [← Pattern.renumber_alts,Pattern.width?_renumber] at h
  cases hw : (Pattern.alts branches).width? with
  | some width =>
    rw [hw] at h
    exact lookBack_of_renumber h
  | none =>
    rw [hw] at h
    obtain ⟨parts,hparts,-⟩ := except_bind_eq_ok.mp h
    rw [innerBranches_renumber] at hparts
    have hall : ∀ p ∈ Reader.innerBranches branches, ∃ p', Reader.lookBack negated p = .ok p' := by
      intro p hp
      obtain ⟨i,hi⟩ := List.mem_iff_getElem?.mp (List.mem_map_of_mem (f := Pattern.renumber o) hp)
      obtain ⟨p',-,hp'⟩ := (list_mapM_eq_ok hparts).2 i _ hi
      exact lookBack_of_renumber hp'
    obtain ⟨parts',hparts'⟩ := exists_list_mapM_eq_ok hall
    rw [hparts']
    exact ⟨_,rfl⟩

/-- Only references by number beside names keep a group from being taken up. -/
lemma exists_contents (h : Unmixed r) : ∃ branches whole, r.contents = .ok (branches,whole) := by
  unfold Reader.contents
  dsimp only
  split
  · rw [h]
    exact ⟨_,_,rfl⟩
  · exact ⟨_,_,rfl⟩

lemma close_of_embed (hmixed : Unmixed r) (hmixed' : Unmixed (e.embed r)) (houter : r.outer ≠ [])
    (h : (e.embed r).close = .ok q) : ∃ r', r.close = .ok r' := by
  obtain ⟨parent,outer,hstack⟩ := List.exists_cons_of_ne_nil houter
  obtain ⟨branches,whole,hcontents⟩ := exists_contents hmixed
  have hcontents' := contents_embed (e := e) (fun _ => hmixed') (fun hnil => absurd hnil houter) hcontents
  unfold Reader.close at h ⊢
  rw [hstack,hcontents]
  have hkind : (e.embed r).current.kind = r.current.kind.renumber e.offset := by
    simp only [embed,hstack,group]
    rfl
  have hstack' : (e.embed r).outer = e.group outer.isEmpty parent :: e.stack outer := by
    simp only [embed,hstack,stack]
  rw [hstack',hcontents',hkind] at h
  simp only [bind,Except.bind] at h ⊢
  cases hk : r.current.kind with
  | look behind negated =>
    cases behind with
    | false => exact ⟨_,rfl⟩
    | true =>
      rw [hk] at h
      obtain ⟨p,hp,-⟩ := except_bind_eq_ok.mp h
      obtain ⟨p',hp'⟩ := lookBehind_of_renumber hp
      dsimp only
      rw [hp']
      exact ⟨_,rfl⟩
  | _ => exact ⟨_,rfl⟩

lemma repeatPiece_of_embed {least : Nat} {most : Option Nat} {greedy possessive : Bool}
    (h : (e.embed r).repeatPiece least most greedy possessive = .ok q) :
    ∃ r', r.repeatPiece least most greedy possessive = .ok r' := by
  unfold Reader.repeatPiece at h ⊢
  cases hp : r.pending with
  | none =>
    simp only [embed,hp,Option.map_none] at h
    cases h
  | some p =>
    simp only [embed,hp,Option.map_some] at h
    cases hrepeatable : p.repeatable with
    | true => exact ⟨_,if_neg (by rw [hrepeatable]; decide)⟩
    | false =>
      rw [if_pos (by simp only [Piece.renumber,hrepeatable]; rfl)] at h
      cases h

lemma refer_of_embed {n : Nat} (h : (e.embed r).refer (shiftGroup e.offset n) = .ok q) :
    ∃ r', r.refer n = .ok r' := by
  have hn : shiftGroup e.offset n ≤ r.groups + e.offset := (Reader.eq_push_of_refer h).1
  have hle : ¬ r.groups < n := by
    unfold shiftGroup at hn
    split at hn
    · omega
    · omega
  unfold Reader.refer
  exact ⟨_,if_neg hle⟩

lemma referByName_of_embed {name : String} (hname : ∀ n, readDecimal? name.toList ≠ some (n,[]))
    (hown : name ∈ r.names.map Prod.fst ∨ ∀ n ∈ e.names, n.1 ≠ name) (h : (e.embed r).referByName name = .ok q) :
    ∃ r', r.referByName name = .ok r' := by
  unfold Reader.referByName at h ⊢
  cases hlookup : r.names.lookup name with
  | some n =>
    rw [lookup_embed hlookup] at h
    exact refer_of_embed h
  | none =>
    have hnone : ∀ n ∈ (e.embed r).names, n.1 ≠ name := by
      have hmine : ∀ n ∈ r.names, n.1 ≠ name := fun n hn hsame => by
        have := List.lookup_eq_none_iff.mp hlookup n hn
        simp [hsame] at this
      intro n hn
      rcases List.mem_append.mp hn with hn | hn
      · obtain ⟨m,hm,rfl⟩ := List.mem_map.mp hn
        exact hmine m hm
      · refine (hown.resolve_left ?_) n hn
        intro hin
        obtain ⟨m,hm,hsame⟩ := List.mem_map.mp hin
        exact hmine m hm hsame
    have hlookup' : (e.embed r).names.lookup name = none :=
      List.lookup_eq_none_iff.mpr (fun n hn => by simpa using (hnone n hn).symm)
    rw [hlookup'] at h
    dsimp only at h
    split at h
    · rename_i hn
      exact absurd hn (hname _)
    · cases h

/-- A token that leads on in the larger text leads on in the text alone, if it may stand there. -/
theorem apply_of_embed {foreign : List String} (he : e.Suits named) (hforeign : ∀ n ∈ e.names, n.1 ∈ foreign)
    (h : r.Sound named) (hx : x.Sound named) (hs : x.Stands foreign (r.names.map Prod.fst) r.outer.length)
    (hr : (e.embed r).apply (x.shift e.offset) = .ok q) : ∃ r', r.apply x = .ok r' := by
  cases x with
  | close =>
    have houter : r.outer ≠ [] := fun hnil => by
      have hpos : 0 < r.outer.length := hs
      rw [hnil] at hpos
      exact absurd hpos (Nat.lt_irrefl 0)
    exact close_of_embed h.unmixed (he.unmixed h) houter hr
  | rounds least most greedy possessive => exact repeatPiece_of_embed hr
  | numberRef n => exact refer_of_embed (r := { r with numbered := true }) hr
  | nameRef name =>
    exact referByName_of_embed hx (hs.imp_right (fun hnot n hn hsame => hnot (hsame ▸ hforeign n hn))) hr
  | _ => exact ⟨_,rfl⟩

end Enclosure
end Highlight.Regex

namespace Highlight.Rules

open Regex

variable {named : Bool} {foreign : List String} {e : Enclosure} {r r' q : Reader} {x : Lexeme} {c : Char}
  {cs rest tail : List Char} {n m : Nat}

/-- The names of the groups that a reader has opened. -/
def namesOf (r : Reader) : List String := r.names.map Prod.fst

lemma namesOf_apply (h : r.apply x = .ok r') : namesOf r' = x.opens?.toList ++ namesOf r := by
  cases x with
  | capture name =>
    obtain rfl := Except.ok.inj h
    have hnames : ∀ names, (({ r with groups := r.groups + 1, names } : Reader).openGroup (.capture (r.groups + 1))).names =
        names := fun names => Reader.flush_names _
    unfold namesOf Reader.openCapture
    rw [hnames]
    cases name with
    | none => rfl
    | some name => rfl
  | _ =>
    have hsame := (Reader.notes_of_apply h).2.resolve_right nofun
    exact congrArg (List.map Prod.fst) hsame

/-- A step of the reader in the group is one of the reader of the text alone. -/
lemma readToken_of_inGroup (he : e.Suits named) (hbase : e.outer.length = 1)
    (hforeign : ∀ n ∈ e.names, n.1 ∈ foreign) (h : r.Sound named)
    (hfits : FitsFrom named r.outer.length (c :: cs)) (hs : SealedFrom foreign (namesOf r) r.outer.length (c :: cs))
    (hroom : e.offset < halfRange) (htext : inGroup e.offset tail (c :: cs) = c :: rest) {q : Reader × List Char}
    (hr : (e.embed r).readToken c rest = .ok q) :
    ∃ r' cs', r.readToken c cs = .ok (r',cs') ∧ SealedFrom foreign (namesOf r') r'.outer.length cs' ∧
      ∀ name ∈ groupNames cs' ++ namesOf r', name ∈ groupNames (c :: cs) ++ namesOf r := by
  obtain ⟨hdepth,y,hlex,happly⟩ := readToken_eq_ok.mp hr
  have hflags : (e.embed r).flags = r.flags := rfl
  have hpending : (e.embed r).pending.isSome = r.pending.isSome := Option.isSome_map
  rw [hflags,hpending] at hlex
  obtain ⟨x,cs',hlex',hrange⟩ := lexeme_of_inGroup hroom h.extended hfits hs htext hlex
  have hx := lexeme_lexes h.extended hfits hlex'
  obtain ⟨rest₁,htext₁,hlex₁,-⟩ := hx.text e.offset tail hrange
  obtain rfl : rest = rest₁ := (List.cons.inj (htext.symm.trans htext₁)).2
  obtain rfl : y = x.shift e.offset := (Prod.mk.inj (Except.ok.inj (hlex.symm.trans hlex₁))).1
  obtain ⟨hstands,hs'⟩ := hx.sealedFrom foreign (namesOf r) hs
  obtain ⟨r',hr'⟩ := Enclosure.apply_of_embed he hforeign h hx.sound hstands happly
  obtain ⟨-,-,houter⟩ := h.apply hx.sound hr'
  have hnames := namesOf_apply hr'
  refine ⟨r',cs',readToken_eq_ok.mpr ⟨?_,x,hlex',hr'⟩,?_,?_⟩
  · have hstack : (e.embed r).outer.length = r.outer.length + e.outer.length := length_stack e r.outer
    simp only [Bool.and_eq_true,decide_eq_true_eq,not_and,Nat.not_le] at hdepth ⊢
    intro hc
    exact Nat.lt_of_le_of_lt (by omega) (hdepth hc)
  · rw [hnames,houter]
    exact hs'
  · intro name hname
    rw [hx.names]
    rw [hnames] at hname
    simp only [List.mem_append] at hname ⊢
    tauto

/-- A sealed text that is read in a group is read alone, and opens all groups that it closes. -/
theorem readAll_of_inGroup (he : e.Suits named) (hbase : e.outer.length = 1)
    (hforeign : ∀ n ∈ e.names, n.1 ∈ foreign) (h : r.Sound named) (hfits : FitsFrom named r.outer.length cs)
    (hs : SealedFrom foreign (namesOf r) r.outer.length cs) (hn : cs.length < n)
    (hroom : r.groups + groupCount cs + e.offset < halfRange) (hm : (inGroup e.offset tail cs).length < m)
    (hr : (e.embed r).readAll m (inGroup e.offset tail cs) = .ok q) :
    ∃ r', r.readAll n cs = .ok r' ∧ r'.outer = [] ∧ ∀ name ∈ namesOf r', name ∈ groupNames cs ++ namesOf r := by
  induction n generalizing r cs m with
  | zero => exact absurd hn (Nat.not_lt_zero _)
  | succ n ih =>
    cases cs with
    | nil =>
      exact ⟨r,readAll_nil h.extended,List.eq_nil_of_length_eq_zero (sealedFrom_nil.mp hs),
        fun name hname => List.mem_append_right _ hname⟩
    | cons c rest =>
      have hhalf := halfRange_lt
      obtain ⟨rest₁,htext⟩ := exists_inGroup_cons e.offset tail c rest
      have hcomment : NoComment (c :: rest₁) := by
        rw [← htext]
        exact hfits.noComment_inGroup
      have hextended : (e.embed r).flags.extended = false := h.extended
      obtain ⟨m,rfl⟩ := Nat.exists_eq_add_one_of_ne_zero (Nat.ne_of_gt (Nat.zero_lt_of_lt hm))
      rw [htext] at hm
      rw [htext,readAll_cons hextended hcomment,except_bind_eq_ok] at hr
      obtain ⟨q₁,htoken,hr⟩ := hr
      obtain ⟨r₁,cs₁,htoken₁,hs₁,hnames⟩ :=
        readToken_of_inGroup he hbase hforeign h hfits hs (by omega) htext htoken
      obtain ⟨hsound,hfits₁,hlen,hgroups,hforward⟩ := readToken_inGroup he hbase h hfits htoken₁ (by omega)
      obtain ⟨rest₂,htext₂,htoken₂,hlen₂⟩ := hforward tail
      obtain rfl : rest₁ = rest₂ := (List.cons.inj (htext.symm.trans htext₂)).2
      obtain rfl := Except.ok.inj (htoken.symm.trans htoken₂)
      simp only [List.length_cons] at hn hm
      obtain ⟨r',hrun,houter,hnames'⟩ := ih hsound hfits₁ hs₁ (by omega) (by omega) (by omega) hr
      refine ⟨r',?_,houter,fun name hname => hnames name (hnames' name hname)⟩
      rw [readAll_cons h.extended hfits.noComment,htoken₁]
      exact hrun

end Highlight.Rules

/-!
Joined rules that are read in turn. If each is sealed, each is read alone as well: where the joined text is not
broken, none of the rules is.
-/
namespace Highlight.Rules

open Regex

variable {f : Flags} {named : Bool} {foreign : List String} {r q : Reader} {x : Part} {text tail : List Char}
  {texts : List (List Char)} {m : Nat}

/-- A sealed text that is read in a group is a part. -/
lemma exists_part_of_inGroup {e : Enclosure} (hx : f.extended = false) (he : e.Suits named) (hbase : e.outer.length = 1)
    (hforeign : ∀ n ∈ e.names, n.1 ∈ foreign) (hs : Sealed named foreign text)
    (hroom : groupCount text + e.offset < halfRange) (hm : (inGroup e.offset tail text).length < m)
    (h : (e.embed { flags := f }).readAll m (inGroup e.offset tail text) = .ok q) :
    ∃ x : Part, x.text = text ∧ x.Proper f named ∧ ∀ name ∈ namesOf x.reader, name ∈ groupNames text := by
  have hstart := sound_start hx named
  have hroom : ({ flags := f } : Reader).groups + groupCount text + e.offset < halfRange :=
    (Nat.zero_add (groupCount text)).symm ▸ hroom
  obtain ⟨r',hrun,houter,hown⟩ := readAll_of_inGroup he hbase hforeign hstart hs.fits hs.through
    (Nat.lt_succ_self _) hroom hm h
  obtain ⟨hsound,-⟩ := readAll_inGroup he hbase hstart hs.fits hrun (Nat.lt_succ_self _) (Nat.lt_trans hroom halfRange_lt) hm
  obtain ⟨branches,whole,hcontents⟩ := Enclosure.exists_contents hsound.unmixed
  refine ⟨⟨text,r',whole.pattern⟩,rfl,⟨⟨⟨_,Nat.lt_succ_self _,hrun⟩,houter,branches,whole,hcontents,rfl⟩,hs.fits⟩,
    fun name hname => ?_⟩
  simpa [namesOf] using hown name hname

/-- A rule in its group that is read is read alone. -/
lemma exists_part_of_readAll (hx : f.extended = false) (hr : Ready f named r) (hs : Sealed named foreign text)
    (hforeign : ∀ name ∈ namesOf r, name ∈ foreign) (hroom : r.groups + 1 + groupCount text < halfRange)
    (hm : (inGroup (r.groups + 1) tail text).length + 1 < m)
    (h : r.readAll m ('(' :: inGroup (r.groups + 1) tail text) = .ok q) :
    ∃ x : Part, x.text = text ∧ x.Proper f named ∧ ∀ name ∈ namesOf x.reader, name ∈ groupNames text := by
  have hextended : r.flags.extended = false := by rw [hr.flags,hx]
  have hhead : (inGroup (r.groups + 1) tail text).head? ≠ some '?' :=
    fun hin => hs.unmarked (head?_of_inGroup (by decide) hin)
  have hcomment : NoComment ('(' :: inGroup (r.groups + 1) tail text) := by
    rintro ⟨cs,hcs⟩
    exact hhead (by rw [← (List.cons.inj hcs).2]; rfl)
  have hopen : r.readToken '(' (inGroup (r.groups + 1) tail text) =
      .ok ((around r).embed { flags := f },inGroup (r.groups + 1) tail text) := by
    refine readToken_eq_ok.mpr ⟨?_,.capture none,lexeme_capture hextended hhead hs.fits.noComment_inGroup,
      congrArg Except.ok (openCapture_around hr)⟩
    rw [hr.outer]
    decide
  obtain ⟨m,rfl⟩ := Nat.exists_eq_add_one_of_ne_zero (Nat.ne_of_gt (Nat.zero_lt_of_lt hm))
  rw [readAll_cons hextended hcomment,hopen] at h
  have hnames : ∀ n ∈ (around r).names, n.1 ∈ foreign := fun n hn => hforeign _ (List.mem_map_of_mem hn)
  have hroom : groupCount text + (around r).offset < halfRange := by
    simp only [around]
    omega
  exact exists_part_of_inGroup hx hr.suits rfl hnames hs hroom (Nat.lt_of_succ_lt_succ hm) h

/-- The names of a reader behind a rule and a bar. -/
lemma namesOf_endBranch : namesOf (after r x).endBranch = namesOf x.reader ++ namesOf r := by
  have hnames : (after r x).endBranch.names =
      x.reader.names.map (fun n => (n.1,shiftGroup (r.groups + 1) n.2)) ++ r.names := (after r x).flush_names
  rw [namesOf,hnames,List.map_append,List.map_map]
  rfl

/-- Joined rules that are read are read alone, each with the flags that the one before leaves. -/
theorem exists_parts_of_readAll (hx : f.extended = false) (hr : Ready f named r)
    (hs : SealedInTurn named foreign texts) (hforeign : ∀ name ∈ namesOf r, name ∈ foreign)
    (hroom : r.groups + groupsInAll (texts.map groupCount) < halfRange)
    (hm : (joinChars r.groups texts).length < m) (h : r.readAll m (joinChars r.groups texts) = .ok q) :
    ∃ xs : List Part, xs.map Part.text = texts ∧ ProperInTurn named f xs := by
  induction texts generalizing f r foreign m with
  | nil => exact ⟨[],rfl,trivial⟩
  | cons text texts ih =>
    rw [List.map_cons,groupsInAll] at hroom
    cases texts with
    | nil =>
      have hm : (inGroup (r.groups + 1) [] text).length + 1 < m := hm
      obtain ⟨x,rfl,hproper,-⟩ := exists_part_of_readAll hx hr hs.1 hforeign (by omega) hm h
      exact ⟨[x],rfl,hproper,trivial⟩
    | cons next texts =>
      have hm : (inGroup (r.groups + 1) ('|' :: joinChars (r.groups + 1 + groupCount text) (next :: texts)) text).length + 1 <
        m := hm
      obtain ⟨x,rfl,hproper,hnames⟩ := exists_part_of_readAll hx hr hs.1 hforeign (by omega) hm h
      have hhalf := halfRange_lt
      obtain ⟨hsound,hgroups,m',hm',hpart⟩ := readAll_part hx hr hproper (by omega) hm
      obtain ⟨m',rfl⟩ := Nat.exists_eq_add_one_of_ne_zero (Nat.ne_of_gt (Nat.zero_lt_of_lt hm'))
      have hextended : (after r x).flags.extended = false := hsound.extended
      have hbar : (after r x).readToken '|' (joinChars (r.groups + 1 + groupCount x.text) (next :: texts)) =
          .ok ((after r x).endBranch,_) :=
        readToken_eq_ok.mpr ⟨by simp,.bar,rfl,rfl⟩
      have h : r.readAll m ('(' :: inGroup (r.groups + 1)
        ('|' :: joinChars (r.groups + 1 + groupCount x.text) (next :: texts)) x.text) = .ok q := h
      rw [hpart,readAll_cons hextended (noComment_of_head (by simp)),hbar] at h
      have hafter : (after r x).endBranch.groups = r.groups + 1 + groupCount x.text := by
        rw [groups_endBranch,hgroups]
      have hforeign' : ∀ name ∈ namesOf (after r x).endBranch, name ∈ groupNames x.text ++ foreign := by
        intro name hname
        rw [namesOf_endBranch] at hname
        rcases List.mem_append.mp hname with hname | hname
        · exact List.mem_append_left _ (hnames name hname)
        · exact List.mem_append_right _ (hforeign name hname)
      have hrest := ih hsound.extended (ready_endBranch hr hsound) hs.2 hforeign' (m := m')
      rw [hafter] at hrest
      obtain ⟨xs,htexts,hturn⟩ := hrest (by omega) (Nat.lt_of_succ_lt_succ hm') h
      exact ⟨x :: xs,congrArg (x.text :: ·) htexts,hproper,hturn⟩

end Highlight.Rules
