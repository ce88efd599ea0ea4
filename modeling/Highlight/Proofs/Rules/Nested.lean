import Highlight.Proofs.Except
import Highlight.Proofs.Rules.Lexemes

/-!
A reader inside the reader of a larger text, which has opened one more group for it or has just read a
bar. Each token leads from one reader to the next in the same way as it does in the larger text.
-/
namespace Highlight.Regex

def Piece.renumber (o : Nat) (p : Piece) : Piece := { p with pattern := p.pattern.renumber o }

def GroupKind.renumber (o : Nat) : GroupKind → GroupKind
  | capture n => capture (shiftGroup o n)
  | k => k

namespace Reader

variable (r : Reader)

/-- A reader without a pending piece has nothing to move. -/
lemma flush_eq_self {r : Reader} (h : r.pending = none) : r.flush = r := by
  rw [flush,h]

/-- Only the pieces of the current alternative change, and nothing stays pending. -/
lemma exists_flush_eq : ∃ pieces, r.flush =
    { r with pending := none, current := { r.current with pieces } } := by
  cases h : r.pending with
  | none => exact ⟨r.current.pieces,by rw [flush_eq_self h,← h]⟩
  | some p => exact ⟨_,by rw [flush,h]⟩

@[simp] lemma flush_pending : r.flush.pending = none := by
  obtain ⟨_,h⟩ := r.exists_flush_eq
  rw [h]

@[simp] lemma flush_flags : r.flush.flags = r.flags := by
  obtain ⟨_,h⟩ := r.exists_flush_eq
  rw [h]

@[simp] lemma flush_groups : r.flush.groups = r.groups := by
  obtain ⟨_,h⟩ := r.exists_flush_eq
  rw [h]

@[simp] lemma flush_names : r.flush.names = r.names := by
  obtain ⟨_,h⟩ := r.exists_flush_eq
  rw [h]

@[simp] lemma flush_numbered : r.flush.numbered = r.numbered := by
  obtain ⟨_,h⟩ := r.exists_flush_eq
  rw [h]

@[simp] lemma flush_referenced : r.flush.referenced = r.referenced := by
  obtain ⟨_,h⟩ := r.exists_flush_eq
  rw [h]

@[simp] lemma flush_outer : r.flush.outer = r.outer := by
  obtain ⟨_,h⟩ := r.exists_flush_eq
  rw [h]

@[simp] lemma flush_branches : r.flush.current.branches = r.current.branches := by
  obtain ⟨_,h⟩ := r.exists_flush_eq
  rw [h]

@[simp] lemma flush_flush : r.flush.flush = r.flush := flush_eq_self r.flush_pending

lemma contents_flush : r.flush.contents = r.contents := by
  simp only [contents,flush_flush,flush_numbered,flush_names]

section Steps

variable {r r' : Reader}

/-- A reference is to a group that was opened. -/
lemma eq_push_of_refer {n : Nat} (h : r.refer n = .ok r') : n ≤ r.groups ∧
    r' = ({ r with referenced := n :: r.referenced } : Reader).push ⟨.backref n,true⟩ := by
  unfold refer at h
  split at h
  · cases h
  · rename_i hn
    exact ⟨Nat.not_lt.mp hn,(Except.ok.inj h).symm⟩

/-- A repetition changes the pending piece. -/
lemma exists_flush_of_repeatPiece {least : Nat} {most : Option Nat} {greedy possessive : Bool}
    (h : r.repeatPiece least most greedy possessive = .ok r') :
    ∃ piece, r' = ({ r with pending := some piece } : Reader).flush := by
  unfold repeatPiece at h
  split at h
  · cases h
  · split at h
    · cases h
    · exact ⟨_,(Except.ok.inj h).symm⟩

/-- A group that is closed becomes a piece of the one around it. The flags change only if it has none but
these of its own. -/
lemma exists_push_of_close (h : r.close = .ok r') : ∃ parent outer f p, r.outer = parent :: outer ∧
    (f = r.flags ∨ r.current.kind = .plain f) ∧
      r' = ({ r with pending := none, current := parent, outer, flags := f } : Reader).push p := by
  unfold close at h
  split at h
  · cases h
  · rename_i parent outer houter
    obtain ⟨⟨branches,whole⟩,-,h⟩ := except_bind_eq_ok.mp h
    dsimp only at h
    split at h
    · exact ⟨parent,outer,r.flags,_,houter,.inl rfl,(Except.ok.inj h).symm⟩
    · rename_i outside hkind
      exact ⟨parent,outer,outside,_,houter,.inr hkind,(Except.ok.inj h).symm⟩
    · exact ⟨parent,outer,r.flags,_,houter,.inl rfl,(Except.ok.inj h).symm⟩
    · exact ⟨parent,outer,r.flags,_,houter,.inl rfl,(Except.ok.inj h).symm⟩
    · obtain ⟨p,-,h⟩ := except_bind_eq_ok.mp h
      exact ⟨parent,outer,r.flags,_,houter,.inl rfl,(Except.ok.inj h).symm⟩

end Steps

end Reader

/-- What a larger text has put around a reader: the groups opened so far, what the group is in which
the reader goes on, its alternatives before, and what else was read before. -/
structure Enclosure where
  offset : Nat
  names : List (String × Nat)
  numbered : Bool
  referenced : List Nat
  kind : GroupKind
  before : List Pattern
  outer : List OpenGroup

namespace Enclosure

variable (e : Enclosure)

/-- An open group in the larger text, where the outermost one may have had alternatives before. -/
def group (outermost : Bool) (g : OpenGroup) : OpenGroup where
  kind := if outermost then e.kind else g.kind.renumber e.offset
  branches := g.branches.map (Pattern.renumber e.offset) ++ if outermost then e.before else []
  pieces := g.pieces.map (Piece.renumber e.offset)

def stack : List OpenGroup → List OpenGroup
  | [] => e.outer
  | g :: rest => e.group rest.isEmpty g :: stack rest

/-- A reader as part of the one around it. -/
def embed (r : Reader) : Reader where
  flags := r.flags
  groups := r.groups + e.offset
  names := r.names.map (fun n => (n.1,shiftGroup e.offset n.2)) ++ e.names
  numbered := r.numbered || e.numbered
  referenced := r.referenced.map (shiftGroup e.offset) ++ e.referenced
  pending := r.pending.map (Piece.renumber e.offset)
  current := e.group r.outer.isEmpty r.current
  outer := e.stack r.outer

variable {e} {r r' : Reader}

lemma flush_embed : (e.embed r).flush = e.embed r.flush := by
  cases hp : r.pending with
  | none => simp only [Reader.flush,embed,hp,Option.map_none]
  | some p =>
    simp only [Reader.flush,embed,hp,Option.map_some,Piece.renumber,Pattern.renumber_eq_empty]
    split
    · rfl
    · rfl

lemma push_embed (p : Piece) : (e.embed r).push (p.renumber e.offset) = e.embed (r.push p) := by
  simp only [Reader.push,flush_embed]
  rfl

lemma endBranch_embed : (e.embed r).endBranch = e.embed r.endBranch := by
  simp only [Reader.endBranch,flush_embed]
  simp only [embed,group,List.map_cons,List.map_nil,Pattern.renumber_cats,List.map_reverse,
    List.map_map]
  rfl

lemma openGroup_embed (k : GroupKind) :
    (e.embed r).openGroup (k.renumber e.offset) = e.embed (r.openGroup k) := by
  simp only [Reader.openGroup,flush_embed]
  rfl

lemma openCapture_embed (name : Option String) :
    (e.embed r).openCapture name = e.embed (r.openCapture name) := by
  have hnumber : r.groups + e.offset + 1 = r.groups + 1 + e.offset := Nat.add_right_comm _ _ _
  cases name with
  | none =>
    simp only [Reader.openCapture]
    rw [← openGroup_embed]
    simp only [embed,hnumber]
    rfl
  | some name =>
    simp only [Reader.openCapture]
    rw [← openGroup_embed]
    simp only [embed,hnumber]
    rfl

lemma refer_embed {n : Nat} (h : r.refer n = .ok r') :
    (e.embed r).refer (shiftGroup e.offset n) = .ok (e.embed r') := by
  unfold Reader.refer at h ⊢
  split at h
  · cases h
  · rename_i hn
    obtain rfl := Except.ok.inj h
    have hn' : ¬ (e.embed r).groups < shiftGroup e.offset n := by
      simp only [embed,shiftGroup]
      split
      · exact Nat.not_lt_zero _
      · omega
    rw [if_neg hn',← push_embed]
    rfl

lemma lookup_embed {name : String} {n : Nat} (h : r.names.lookup name = some n) :
    (e.embed r).names.lookup name = some (shiftGroup e.offset n) := by
  obtain ⟨l₁,l₂,hnames,hl₁⟩ := List.lookup_eq_some_iff.mp h
  refine List.lookup_eq_some_iff.mpr ⟨l₁.map (fun n => (n.1,shiftGroup e.offset n.2)),
    l₂.map (fun n => (n.1,shiftGroup e.offset n.2)) ++ e.names,?_,?_⟩
  · simp only [embed,hnames,List.map_append,List.map_cons,List.append_assoc,List.cons_append]
  · intro p hp
    obtain ⟨q,hq,rfl⟩ := List.mem_map.mp hp
    exact hl₁ q hq

lemma referByName_embed {name : String} (hname : ∀ n, readDecimal? name.toList ≠ some (n,[]))
    (h : r.referByName name = .ok r') : (e.embed r).referByName name = .ok (e.embed r') := by
  unfold Reader.referByName at h ⊢
  cases hlookup : r.names.lookup name with
  | some n =>
    rw [hlookup] at h
    rw [lookup_embed hlookup]
    exact refer_embed h
  | none =>
    rw [hlookup] at h
    dsimp only at h
    split at h
    · rename_i hn
      exact absurd hn (hname _)
    · cases h

lemma repeatPiece_embed {least : Nat} {most : Option Nat} {greedy possessive : Bool}
    (h : r.repeatPiece least most greedy possessive = .ok r') :
    (e.embed r).repeatPiece least most greedy possessive = .ok (e.embed r') := by
  unfold Reader.repeatPiece at h ⊢
  cases hp : r.pending with
  | none =>
    rw [hp] at h
    cases h
  | some p =>
    rw [hp] at h
    dsimp only at h
    split at h
    · cases h
    · rename_i hrepeatable
      obtain rfl := Except.ok.inj h
      have hpending : (e.embed r).pending = some (p.renumber e.offset) := by
        simp only [embed,hp,Option.map_some]
      have hrepeatable' : ¬ (!(p.renumber e.offset).repeatable) = true := hrepeatable
      rw [hpending]
      dsimp only
      rw [if_neg hrepeatable',← flush_embed]
      cases possessive with
      | true => rfl
      | false => rfl

lemma last_group (outermost : Bool) (g : OpenGroup) :
    (e.group outermost g).last = g.last.renumber e.offset := by
  obtain ⟨kind,branches,pieces⟩ := g
  cases pieces with
  | nil => rfl
  | cons p pieces =>
    cases pieces with
    | nil => rfl
    | cons q pieces =>
      simp only [OpenGroup.last,group,Piece.renumber,List.map_cons,Pattern.renumber_cats,
        List.map_reverse,List.map_map]
      rfl

/-- References by number and named groups do not occur together. -/
def Unmixed (r : Reader) : Prop := (r.numbered && !r.names.isEmpty) = false

lemma contents_embed {branches : List Pattern} {whole : Piece}
    (hmixed : Unmixed r → Unmixed (e.embed r)) (hbefore : r.outer = [] → e.before = [])
    (h : r.contents = .ok (branches,whole)) :
    (e.embed r).contents =
      .ok (branches.map (Pattern.renumber e.offset),whole.renumber e.offset) := by
  have hcurrent : (e.embed r).flush.current = e.group r.flush.outer.isEmpty r.flush.current := by
    rw [flush_embed]
    rfl
  have hnone : (if r.flush.outer.isEmpty then e.before else []) = [] := by
    split
    · rename_i hempty
      rw [Reader.flush_outer,List.isEmpty_iff] at hempty
      exact hbefore hempty
    · rfl
  unfold Reader.contents at h ⊢
  dsimp only at h ⊢
  rw [hcurrent,last_group]
  cases hb : r.flush.current.branches with
  | nil =>
    rw [hb] at h
    dsimp only at h
    split at h
    · cases h
    · rename_i hr
      obtain ⟨rfl,rfl⟩ := Prod.mk.inj (Except.ok.inj h)
      have hbranches : (e.group r.flush.outer.isEmpty r.flush.current).branches = [] := by
        simp only [group,hb,List.map_nil,hnone,List.append_nil]
      rw [hbranches]
      dsimp only
      rw [if_neg (by rw [hmixed (Bool.eq_false_iff.mpr hr)]; decide)]
      rfl
  | cons b bs =>
    rw [hb] at h
    obtain ⟨rfl,rfl⟩ := Prod.mk.inj (Except.ok.inj h)
    have hbranches : (e.group r.flush.outer.isEmpty r.flush.current).branches =
        b.renumber e.offset :: bs.map (Pattern.renumber e.offset) := by
      simp only [group,hb,List.map_cons,hnone,List.append_nil]
    rw [hbranches]
    simp only [Piece.renumber,Pattern.renumber_alts,List.map_reverse,List.map_cons]

lemma lookBack_renumber {o : Nat} {negated : Bool} (p q : Pattern)
    (h : Reader.lookBack negated p = .ok q) :
    Reader.lookBack negated (p.renumber o) = .ok (q.renumber o) := by
  unfold Reader.lookBack at h ⊢
  rw [Pattern.width?_renumber]
  split at h
  · obtain rfl := Except.ok.inj h
    rfl
  · cases h

lemma innerBranches_renumber (o : Nat) (branches : List Pattern) :
    Reader.innerBranches (branches.map (Pattern.renumber o)) =
      (Reader.innerBranches branches).map (Pattern.renumber o) := by
  cases branches with
  | nil => rfl
  | cons p branches =>
    cases branches with
    | nil => exact Pattern.branches_renumber p
    | cons q branches => rfl

lemma lookBehind_renumber {o : Nat} {negated : Bool} {branches : List Pattern} {p : Pattern}
    (h : Reader.lookBehind negated branches = .ok p) :
    Reader.lookBehind negated (branches.map (Pattern.renumber o)) = .ok (p.renumber o) := by
  unfold Reader.lookBehind at h ⊢
  rw [← Pattern.renumber_alts,Pattern.width?_renumber]
  split at h
  · exact lookBack_renumber _ _ h
  · obtain ⟨parts,hparts,h⟩ := except_bind_eq_ok.mp h
    obtain rfl := Except.ok.inj h
    rw [innerBranches_renumber,list_mapM_map lookBack_renumber hparts]
    cases negated with
    | true => exact congrArg Except.ok (Pattern.renumber_cats parts).symm
    | false => exact congrArg Except.ok (Pattern.renumber_alts parts).symm

lemma close_embed (hmixed : Unmixed r → Unmixed (e.embed r)) (h : r.close = .ok r') :
    (e.embed r).close = .ok (e.embed r') := by
  unfold Reader.close at h ⊢
  cases houter : r.outer with
  | nil =>
    rw [houter] at h
    cases h
  | cons parent outer =>
    rw [houter] at h
    obtain ⟨⟨branches,whole⟩,hcontents,h⟩ := except_bind_eq_ok.mp h
    have hstack : (e.embed r).outer = e.group outer.isEmpty parent :: e.stack outer := by
      simp only [embed,houter,stack]
    have hkind : (e.embed r).current.kind = r.current.kind.renumber e.offset := by
      simp only [embed,houter,group]
      rfl
    rw [hstack]
    dsimp only at h ⊢
    have hinner : r.outer = [] → e.before = [] := by
      rw [houter]
      nofun
    rw [contents_embed hmixed hinner hcontents,hkind]
    cases hk : r.current.kind with
    | capture n =>
      rw [hk] at h
      obtain rfl := Except.ok.inj h
      rw [← push_embed]
      rfl
    | plain outside =>
      rw [hk] at h
      obtain rfl := Except.ok.inj h
      rw [← push_embed]
      rfl
    | atomic =>
      rw [hk] at h
      obtain rfl := Except.ok.inj h
      rw [← push_embed]
      rfl
    | look behind negated =>
      rw [hk] at h
      cases behind with
      | false =>
        obtain rfl := Except.ok.inj h
        rw [← push_embed]
        rfl
      | true =>
        obtain ⟨p,hp,h⟩ := except_bind_eq_ok.mp h
        obtain rfl := Except.ok.inj h
        rw [← push_embed]
        simp only [GroupKind.renumber,bind,Except.bind,lookBehind_renumber hp]
        rfl

end Enclosure

/-- A capture group bears one of the numbers given so far. -/
def GroupKind.Within (k : Nat) : GroupKind → Prop
  | capture n => 0 < n ∧ n ≤ k
  | _ => True

structure OpenGroup.Within (k : Nat) (g : OpenGroup) : Prop where
  kind : g.kind.Within k
  branches : ∀ p ∈ g.branches, p.GroupsWithin k
  pieces : ∀ p ∈ g.pieces, p.pattern.GroupsWithin k

/-- Whatever has been read bears and refers to numbers of groups that were opened. -/
structure Reader.Within (r : Reader) : Prop where
  referenced : ∀ n ∈ r.referenced, n ≤ r.groups
  pending : ∀ p ∈ r.pending, p.pattern.GroupsWithin r.groups
  current : r.current.Within r.groups
  outer : ∀ g ∈ r.outer, g.Within r.groups

/-- What the open groups of a reader are, the innermost first. -/
def Reader.kinds (r : Reader) : List GroupKind := (r.current :: r.outer).map OpenGroup.kind

/-- `P` holds of the flags of a reader, and of those that hold again behind its open groups. -/
structure Reader.Flagged (P : Flags → Prop) (r : Reader) : Prop where
  flags : P r.flags
  outside : ∀ k ∈ r.kinds, ∀ f, k = .plain f → P f

/-- What holds of the flags, the names and the numbered references of a reader that has read tokens of
a text that fits. -/
structure Reader.Tame (named : Bool) (r : Reader) : Prop where
  extended : r.flags.extended = false
  outside : ∀ k ∈ r.kinds, ∀ f, k = .plain f → f.extended = false
  numbered : named = true → r.numbered = false
  names : named = false → r.names = []

/-- What holds of a reader that has read tokens of a text that fits. -/
structure Reader.Sound (named : Bool) (r : Reader) : Prop extends r.Within, r.Tame named

lemma GroupKind.Within.mono {k m : Nat} {kind : GroupKind} (h : kind.Within k) (hkm : k ≤ m) :
    kind.Within m := by
  cases kind with
  | capture n => exact ⟨h.1,Nat.le_trans h.2 hkm⟩
  | plain outside => trivial
  | atomic => trivial
  | look behind negated => trivial

lemma OpenGroup.Within.mono {k m : Nat} {g : OpenGroup} (h : g.Within k) (hkm : k ≤ m) : g.Within m :=
  ⟨h.kind.mono hkm,fun p hp => (h.branches p hp).mono hkm,fun p hp => (h.pieces p hp).mono hkm⟩

lemma Reader.kinds_flush (r : Reader) : r.flush.kinds = r.kinds := by
  obtain ⟨_,h⟩ := r.exists_flush_eq
  rw [h]
  rfl

namespace Reader.Within

variable {r r' : Reader}

lemma all (h : r.Within) : r.All (Pattern.GroupsWithin r.groups) :=
  ⟨h.pending,⟨h.current.branches,h.current.pieces⟩,fun g hg => ⟨(h.outer g hg).branches,(h.outer g hg).pieces⟩⟩

lemma kinds (h : r.Within) : ∀ k ∈ r.kinds, k.Within r.groups := by
  intro k hk
  obtain ⟨g,hg,rfl⟩ := List.mem_map.mp hk
  rcases List.mem_cons.mp hg with rfl | hg
  · exact h.current.kind
  · exact (h.outer g hg).kind

/-- Where no group is opened, all depends on the patterns that have been read. -/
lemma of_all (h : r.Within) (hreferenced : r'.referenced = r.referenced) (hgroups : r'.groups = r.groups)
    (hkinds : ∀ k ∈ r'.kinds, k ∈ r.kinds) (hall : r'.All (Pattern.GroupsWithin r.groups)) : r'.Within := by
  have hkind : ∀ g ∈ r'.current :: r'.outer, g.kind.Within r.groups :=
    fun g hg => h.kinds _ (hkinds _ (List.mem_map_of_mem hg))
  rw [← hgroups] at hall hkind
  refine ⟨?_,hall.pending,⟨hkind _ List.mem_cons_self,hall.current.branches,hall.current.pieces⟩,fun g hg => ?_⟩
  · rw [hreferenced,hgroups]
    exact h.referenced
  · exact ⟨hkind g (List.mem_cons_of_mem _ hg),(hall.outer g hg).branches,(hall.outer g hg).pieces⟩

lemma flush (h : r.Within) : r.flush.Within :=
  h.of_all r.flush_referenced r.flush_groups (fun _ hk => r.kinds_flush ▸ hk) h.all.flush

lemma push (h : r.Within) {p : Piece} (hp : p.pattern.GroupsWithin r.groups) : (r.push p).Within :=
  h.of_all r.flush_referenced r.flush_groups (fun _ hk => r.kinds_flush ▸ hk) (h.all.push hp)

lemma endBranch (h : r.Within) : r.endBranch.Within :=
  h.of_all r.flush_referenced r.flush_groups (fun _ hk => r.kinds_flush ▸ hk)
    (h.all.endBranch (Pattern.composes_groupsWithin _))

lemma openGroup (h : r.Within) {k : GroupKind} (hk : k.Within r.groups) :
    (r.openGroup k).Within := by
  rw [← Reader.flush_groups] at hk
  refine { h.flush with current := ⟨hk,nofun,nofun⟩, outer := ?_ }
  intro g hg
  rcases List.mem_cons.mp hg with rfl | hg
  · exact h.flush.current
  · exact h.flush.outer g hg

lemma withFlags (h : r.Within) (f : Flags) : ({ r with flags := f } : Reader).Within := { h with }

/-- More groups are open to references. -/
lemma grow (h : r.Within) (names : List (String × Nat)) :
    ({ r with groups := r.groups + 1, names } : Reader).Within where
  referenced n hn := Nat.le_succ_of_le (h.referenced n hn)
  pending p hp := (h.pending p hp).mono (Nat.le_succ _)
  current := h.current.mono (Nat.le_succ _)
  outer g hg := (h.outer g hg).mono (Nat.le_succ _)

lemma openCapture (h : r.Within) (name : Option String) : (r.openCapture name).Within :=
  (h.grow _).openGroup ⟨Nat.succ_pos _,Nat.le_refl _⟩

lemma refer (h : r.Within) {n : Nat} (hr : r.refer n = .ok r') : r'.Within ∧
    r'.groups = r.groups ∧ r'.outer.length = r.outer.length ∧ n ≤ r.groups := by
  obtain ⟨hn,rfl⟩ := eq_push_of_refer hr
  have hnoted : ({ r with referenced := n :: r.referenced } : Reader).Within := by
    refine { h with referenced := ?_ }
    intro m hm
    rcases List.mem_cons.mp hm with rfl | hm
    · exact hn
    · exact h.referenced m hm
  exact ⟨hnoted.push (p := ⟨.backref n,true⟩) trivial,Reader.flush_groups _,
    congrArg List.length (Reader.flush_outer _),hn⟩

lemma refer_of_referByName {name : String} (h : r.referByName name = .ok r') :
    ∃ n, r.refer n = .ok r' := by
  unfold Reader.referByName at h
  split at h
  · exact ⟨_,h⟩
  · split at h
    · exact ⟨_,h⟩
    · cases h

lemma repeatPiece (h : r.Within) {least : Nat} {most : Option Nat} {greedy possessive : Bool}
    (hr : r.repeatPiece least most greedy possessive = .ok r') :
    r'.Within ∧ r'.groups = r.groups ∧ r'.outer.length = r.outer.length := by
  have hall := h.all.repeatPiece (Pattern.composes_groupsWithin _) (fun _ => id) hr
  obtain ⟨piece,rfl⟩ := exists_flush_of_repeatPiece hr
  have hkinds := Reader.kinds_flush { r with pending := some piece }
  exact ⟨h.of_all (flush_referenced _) (flush_groups _) (fun _ hk => hkinds ▸ hk) hall,flush_groups _,
    congrArg List.length (flush_outer _)⟩

lemma contents (h : r.Within) {branches : List Pattern} {whole : Piece}
    (hr : r.contents = .ok (branches,whole)) :
    (∀ p ∈ branches, p.GroupsWithin r.groups) ∧ whole.pattern.GroupsWithin r.groups :=
  h.all.contents (Pattern.composes_groupsWithin _) hr

/-- The group that is closed becomes a piece of the one around it. -/
lemma close (h : r.Within) (hr : r.close = .ok r') :
    r'.Within ∧ r'.groups = r.groups ∧ r'.outer.length + 1 = r.outer.length := by
  have hall := h.all.close (Pattern.composes_groupsWithin _) (fun n p hk hp => by
    obtain ⟨hpos,hle⟩ : 0 < n ∧ n ≤ r.groups := by
      have hkind := h.current.kind
      rwa [hk] at hkind
    exact ⟨hpos,hle,hp⟩) hr
  obtain ⟨parent,outer,f,p,houter,-,rfl⟩ := exists_push_of_close hr
  have hkinds : (({ r with pending := none, current := parent, outer, flags := f } : Reader).push p).kinds =
      r.outer.map OpenGroup.kind := houter ▸ Reader.kinds_flush _
  have hlength : outer.length + 1 = r.outer.length := (congrArg List.length houter).symm
  refine ⟨h.of_all (flush_referenced _) (flush_groups _) (fun k hk => ?_) hall,flush_groups _,?_⟩
  · rw [hkinds] at hk
    exact List.mem_cons_of_mem _ hk
  · rw [← hlength]
    exact congrArg (List.length · + 1) (flush_outer _)

/-- What a token does to a reader. -/
theorem apply (h : r.Within) {x : Lexeme} (hx : x.OpensNone) (hr : r.apply x = .ok r') :
    r'.Within ∧ r'.groups = (r.groups + if x.captures then 1 else 0) ∧
      r'.outer.length = x.depthAfter r.outer.length := by
  cases x with
  | piece p =>
    obtain rfl := Except.ok.inj hr
    exact ⟨h.push (Pattern.groupsWithin_of_isAtom hx _),Reader.flush_groups r,congrArg List.length (Reader.flush_outer r)⟩
  | flags f =>
    obtain rfl := Except.ok.inj hr
    exact ⟨(h.withFlags f).push (p := .nothing) trivial,Reader.flush_groups _,congrArg List.length (Reader.flush_outer _)⟩
  | bar =>
    obtain rfl := Except.ok.inj hr
    exact ⟨h.endBranch,Reader.flush_groups r,congrArg List.length (Reader.flush_outer r)⟩
  | close =>
    obtain ⟨hs,hgroups,houter⟩ := h.close hr
    exact ⟨hs,hgroups,Nat.eq_sub_of_add_eq houter⟩
  | rounds least most greedy possessive => exact h.repeatPiece hr
  | atomic =>
    obtain rfl := Except.ok.inj hr
    exact ⟨h.openGroup (k := .atomic) trivial,Reader.flush_groups r,
      congrArg (List.length · + 1) (Reader.flush_outer r)⟩
  | look behind negated =>
    obtain rfl := Except.ok.inj hr
    exact ⟨h.openGroup (k := .look behind negated) trivial,Reader.flush_groups r,
      congrArg (List.length · + 1) (Reader.flush_outer r)⟩
  | capture name =>
    obtain rfl := Except.ok.inj hr
    exact ⟨h.openCapture name,Reader.flush_groups _,congrArg (List.length · + 1) (Reader.flush_outer _)⟩
  | plain inside =>
    obtain rfl := Except.ok.inj hr
    exact ⟨(h.withFlags inside).openGroup (k := .plain r.flags) trivial,Reader.flush_groups _,
      congrArg (List.length · + 1) (Reader.flush_outer _)⟩
  | numberRef n =>
    have hf : ({ r with numbered := true } : Reader).Within := { h with }
    obtain ⟨hs,hgroups,houter,-⟩ := hf.refer hr
    exact ⟨hs,hgroups,houter⟩
  | nameRef name =>
    obtain ⟨n,hn⟩ := refer_of_referByName hr
    obtain ⟨hs,hgroups,houter,-⟩ := h.refer hn
    exact ⟨hs,hgroups,houter⟩

end Reader.Within

namespace Reader

variable {named : Bool} {r r' : Reader}

namespace Flagged

variable {P : Flags → Prop}

/-- It is all that matters which flags and groups there are. -/
lemma of_eq (h : r.Flagged P) (hflags : r'.flags = r.flags) (hkinds : r'.kinds = r.kinds) : r'.Flagged P where
  flags := hflags ▸ h.flags
  outside := hkinds ▸ h.outside

lemma flush (h : r.Flagged P) : r.flush.Flagged P := h.of_eq r.flush_flags r.kinds_flush

lemma push (h : r.Flagged P) (p : Piece) : (r.push p).Flagged P := h.flush.of_eq rfl rfl

lemma openGroup (h : r.Flagged P) {k : GroupKind} (hk : ∀ f, k = .plain f → P f) :
    (r.openGroup k).Flagged P := by
  refine ⟨h.flush.flags,fun k' hk' => ?_⟩
  rcases List.mem_cons.mp hk' with rfl | hk'
  · exact hk
  · exact h.flush.outside k' hk'

lemma refer (h : r.Flagged P) {n : Nat} (hr : r.refer n = .ok r') : r'.Flagged P := by
  obtain ⟨-,rfl⟩ := eq_push_of_refer hr
  have hnoted : ({ r with referenced := n :: r.referenced } : Reader).Flagged P := h.of_eq rfl rfl
  exact hnoted.push ⟨.backref n,true⟩

lemma close (h : r.Flagged P) (hr : r.close = .ok r') : r'.Flagged P := by
  obtain ⟨parent,outer,f,p,houter,hf,rfl⟩ := exists_push_of_close hr
  refine push ⟨?_,fun k hk => h.outside k (List.mem_cons_of_mem _ ?_)⟩ p
  · rcases hf with rfl | hkind
    · exact h.flags
    · exact h.outside _ List.mem_cons_self f hkind
  · rw [houter]
    exact hk

/-- A token sets the flags that it bears, or those of an open group hold again. -/
theorem apply (h : r.Flagged P) {x : Lexeme} (hx : x.Flagged P) (hr : r.apply x = .ok r') : r'.Flagged P := by
  cases x with
  | piece p =>
    obtain rfl := Except.ok.inj hr
    exact h.push p
  | flags f =>
    obtain rfl := Except.ok.inj hr
    exact push (r := { r with flags := f }) ⟨hx,h.outside⟩ .nothing
  | bar =>
    obtain rfl := Except.ok.inj hr
    exact h.flush.of_eq rfl rfl
  | close => exact h.close hr
  | rounds least most greedy possessive =>
    obtain ⟨p,rfl⟩ := exists_flush_of_repeatPiece hr
    exact flush (h.of_eq rfl rfl)
  | atomic =>
    obtain rfl := Except.ok.inj hr
    exact h.openGroup (k := .atomic) nofun
  | look behind negated =>
    obtain rfl := Except.ok.inj hr
    exact h.openGroup (k := .look behind negated) nofun
  | capture name =>
    obtain rfl := Except.ok.inj hr
    have hgrown : ∀ names, ({ r with groups := r.groups + 1, names } : Reader).Flagged P :=
      fun _ => h.of_eq rfl rfl
    exact (hgrown _).openGroup (k := .capture (r.groups + 1)) nofun
  | plain inside =>
    obtain rfl := Except.ok.inj hr
    refine openGroup (r := { r with flags := inside }) (k := .plain r.flags) ⟨hx,h.outside⟩ (fun f hf => ?_)
    cases hf
    exact h.flags
  | numberRef n =>
    have hf : ({ r with numbered := true } : Reader).Flagged P := h.of_eq rfl rfl
    exact hf.refer hr
  | nameRef name =>
    obtain ⟨n,hn⟩ := Within.refer_of_referByName hr
    exact h.refer hn

end Flagged

/-- Only a reference by number makes a reader numbered, and only a named group adds a name. -/
lemma notes_of_apply {x : Lexeme} (hr : r.apply x = .ok r') :
    (r'.numbered = true → r.numbered = true ∨ ∃ n, x = .numberRef n) ∧
      (r'.names = r.names ∨ ∃ name, x = .capture (some name)) := by
  have hkept : r'.numbered = r.numbered → r'.names = r.names →
      (r'.numbered = true → r.numbered = true ∨ ∃ n, x = .numberRef n) ∧
        (r'.names = r.names ∨ ∃ name, x = .capture (some name)) :=
    fun hnumbered hnames => ⟨fun h => .inl (hnumbered ▸ h),.inl hnames⟩
  cases x with
  | rounds least most greedy possessive =>
    obtain ⟨p,rfl⟩ := exists_flush_of_repeatPiece hr
    exact hkept (flush_numbered _) (flush_names _)
  | close =>
    obtain ⟨parent,outer,f,p,-,-,rfl⟩ := exists_push_of_close hr
    exact hkept (flush_numbered _) (flush_names _)
  | numberRef n =>
    obtain ⟨-,rfl⟩ := eq_push_of_refer (r := { r with numbered := true }) hr
    exact ⟨fun _ => .inr ⟨n,rfl⟩,.inl (flush_names _)⟩
  | nameRef name =>
    obtain ⟨n,hn⟩ := Within.refer_of_referByName hr
    obtain ⟨-,rfl⟩ := eq_push_of_refer hn
    exact hkept (flush_numbered _) (flush_names _)
  | capture name =>
    obtain rfl := Except.ok.inj hr
    cases name with
    | none => exact hkept (flush_numbered _) (flush_names _)
    | some name =>
      have hnumbered : (r.openCapture (some name)).numbered = r.numbered := flush_numbered _
      exact ⟨fun h => .inl (hnumbered ▸ h),.inr ⟨name,rfl⟩⟩
  | _ =>
    obtain rfl := Except.ok.inj hr
    exact hkept (flush_numbered _) (flush_names _)

lemma Tame.apply (h : r.Tame named) {x : Lexeme} (hx : x.Sound named) (hr : r.apply x = .ok r') :
    r'.Tame named := by
  have hf : r'.Flagged (fun f => f.extended = false) := Flagged.apply ⟨h.extended,h.outside⟩ hx.flagged hr
  obtain ⟨hnumbered,hnames⟩ := notes_of_apply hr
  refine ⟨hf.flags,hf.outside,fun ht => eq_false_of_ne_true (fun hn => ?_),fun hn => ?_⟩
  · rcases hnumbered hn with hn | ⟨n,rfl⟩
    · exact absurd (hn.symm.trans (h.numbered ht)) (by decide)
    · exact absurd (ht.symm.trans hx) (by decide)
  · rcases hnames with hnames | ⟨name,rfl⟩
    · exact hnames.trans (h.names hn)
    · have ht : named = true := hx
      exact absurd (ht.symm.trans hn) (by decide)

/-- What a token of a text that fits does to a reader. -/
theorem Sound.apply (h : r.Sound named) {x : Lexeme} (hx : x.Sound named) (hr : r.apply x = .ok r') :
    r'.Sound named ∧ r'.groups = (r.groups + if x.captures then 1 else 0) ∧
      r'.outer.length = x.depthAfter r.outer.length := by
  obtain ⟨hwithin,hgroups,houter⟩ := h.toWithin.apply hx.opensNone hr
  exact ⟨⟨hwithin,h.toTame.apply hx hr⟩,hgroups,houter⟩

end Reader

namespace Enclosure

variable {named : Bool} {e : Enclosure} {r r' : Reader} {x : Lexeme}

/-- What was read before goes with a text of the same sort. -/
structure Suits (e : Enclosure) (named : Bool) : Prop where
  numbered : named = true → e.numbered = false
  names : named = false → e.names = []

lemma Suits.unmixed (he : e.Suits named) (h : r.Sound named) : Unmixed (e.embed r) := by
  cases named with
  | true =>
    have hnumbered : (e.embed r).numbered = false := by
      simp only [embed,h.numbered rfl,he.numbered rfl,Bool.or_self]
    rw [Unmixed,hnumbered,Bool.false_and]
  | false =>
    have hnames : (e.embed r).names = [] := by
      simp only [embed,h.names rfl,he.names rfl,List.map_nil,List.append_nil]
    rw [Unmixed,hnames]
    exact Bool.and_false _

/-- A token that refers to no group leads to the same reader in the larger text. -/
theorem apply_embed_of_not_refers (hmixed : Unmixed r → Unmixed (e.embed r)) (hx : x.OpensNone)
    (hrefers : x.refers = false) (hr : r.apply x = .ok r') :
    (e.embed r).apply x = .ok (e.embed r') := by
  cases x with
  | piece p =>
    obtain rfl := Except.ok.inj hr
    rw [← push_embed,Piece.renumber,Pattern.renumber_of_isAtom hx]
    rfl
  | flags f =>
    obtain rfl := Except.ok.inj hr
    rw [← push_embed]
    rfl
  | bar =>
    obtain rfl := Except.ok.inj hr
    exact congrArg Except.ok endBranch_embed
  | close => exact close_embed hmixed hr
  | rounds least most greedy possessive => exact repeatPiece_embed hr
  | atomic =>
    obtain rfl := Except.ok.inj hr
    exact congrArg Except.ok (openGroup_embed .atomic)
  | look behind negated =>
    obtain rfl := Except.ok.inj hr
    exact congrArg Except.ok (openGroup_embed (.look behind negated))
  | capture name =>
    obtain rfl := Except.ok.inj hr
    exact congrArg Except.ok (openCapture_embed name)
  | plain inside =>
    obtain rfl := Except.ok.inj hr
    rw [← openGroup_embed]
    rfl
  | numberRef n => cases hrefers
  | nameRef name => cases hrefers

/-- A token leads to the same reader in the larger text. -/
theorem apply_embed (he : e.Suits named) (h : r.Sound named) (hx : x.Sound named)
    (hr : r.apply x = .ok r') : (e.embed r).apply (x.shift e.offset) = .ok (e.embed r') := by
  cases hrefers : x.refers with
  | false =>
    have hshift : x.shift e.offset = x := by
      cases x with
      | numberRef n => cases hrefers
      | _ => rfl
    rw [hshift]
    exact apply_embed_of_not_refers (fun _ => he.unmixed h) hx.opensNone hrefers hr
  | true =>
    cases x with
    | numberRef n => exact refer_embed hr
    | nameRef name => exact referByName_embed hx hr
    | _ => cases hrefers

end Enclosure

end Highlight.Regex
