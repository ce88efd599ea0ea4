import Highlight.Proofs.Rules.Combined
import Highlight.Proofs.Rules.Detached
import Highlight.Proofs.Rules.Nested
import Highlight.Proofs.Rules.SetItems

/-!
What flags do not decide. Flags decide which characters a piece stands for, where a line anchor holds and whether a
repetition is greedy; what is left of a pattern without that is its skeleton. A reader goes on or fails with its
skeleton.
-/
namespace Highlight.Regex

/-- A pattern without what flags decide. -/
def Pattern.skeleton : Pattern → Pattern
  | empty => empty
  | set _ => set .any
  | assert _ => assert .textStart
  | cat p q => cat p.skeleton q.skeleton
  | alt p q => alt p.skeleton q.skeleton
  | group n p => group n p.skeleton
  | loop p least most _ => loop p.skeleton least most true
  | look direction negated settled p => look direction negated settled p.skeleton
  | backref n => backref n
  | atomic settled p => atomic settled p.skeleton

namespace Pattern

variable (p : Pattern) (ps : List Pattern)

lemma width?_skeleton : p.skeleton.width? = p.width? := by
  induction p with
  | cat p q hp hq | alt p q hp hq => simp only [skeleton,width?,hp,hq]
  | group n p hp | atomic s p hp | loop p least most greedy hp => simp only [skeleton,width?,hp]
  | _ => rfl

lemma skeleton_eq_empty : p.skeleton = .empty ↔ p = .empty := by
  cases p with
  | empty => exact ⟨fun _ => rfl,fun _ => rfl⟩
  | _ => exact ⟨nofun,nofun⟩

lemma skeleton_cats : (cats ps).skeleton = cats (ps.map skeleton) := by
  induction ps with
  | nil => rfl
  | cons p ps ih =>
    cases ps with
    | nil => rfl
    | cons q ps => exact congrArg (cat p.skeleton) ih

lemma skeleton_alts : (alts ps).skeleton = alts (ps.map skeleton) := by
  induction ps with
  | nil => rfl
  | cons p ps ih =>
    cases ps with
    | nil => rfl
    | cons q ps => exact congrArg (alt p.skeleton) ih

lemma branches_skeleton : p.skeleton.branches = p.branches.map skeleton := by
  induction p with
  | alt p q hp hq => exact congrArg (p.skeleton :: ·) hq
  | _ => rfl

end Pattern

def Piece.skeleton (p : Piece) : Piece := { p with pattern := p.pattern.skeleton }

def GroupKind.skeleton : GroupKind → GroupKind
  | plain _ => plain {}
  | k => k

def OpenGroup.skeleton (g : OpenGroup) : OpenGroup where
  kind := g.kind.skeleton
  branches := g.branches.map Pattern.skeleton
  pieces := g.pieces.map Piece.skeleton

/-- A token without what flags decide. -/
def Lexeme.skeleton : Lexeme → Lexeme
  | piece p => piece p.skeleton
  | flags _ => flags {}
  | rounds least most _ possessive => rounds least most true possessive
  | plain _ => plain {}
  | x => x

namespace Reader

/-- A reader without its flags and what they decide. -/
def skeleton (r : Reader) : Reader where
  flags := {}
  groups := r.groups
  names := r.names
  numbered := r.numbered
  referenced := r.referenced
  pending := r.pending.map Piece.skeleton
  current := r.current.skeleton
  outer := r.outer.map OpenGroup.skeleton

variable (r : Reader)

lemma skeleton_flush : r.flush.skeleton = r.skeleton.flush := by
  cases hp : r.pending with
  | none => simp only [flush,skeleton,hp,Option.map_none]
  | some p =>
    simp only [flush,skeleton,hp,Option.map_some,Piece.skeleton,Pattern.skeleton_eq_empty]
    split
    · rfl
    · rfl

lemma skeleton_push (p : Piece) : (r.push p).skeleton = r.skeleton.push p.skeleton := by
  simp only [push,← skeleton_flush]
  rfl

lemma skeleton_endBranch : r.endBranch.skeleton = r.skeleton.endBranch := by
  simp only [endBranch,← skeleton_flush]
  simp only [skeleton,OpenGroup.skeleton,List.map_cons,Pattern.skeleton_cats,List.map_map,List.map_nil,
    List.map_reverse]
  rfl

lemma skeleton_openGroup (k : GroupKind) : (r.openGroup k).skeleton = r.skeleton.openGroup k.skeleton := by
  simp only [openGroup,← skeleton_flush]
  rfl

lemma skeleton_openCapture (name : Option String) : (r.openCapture name).skeleton = r.skeleton.openCapture name := by
  cases name with
  | none => exact skeleton_openGroup { r with groups := r.groups + 1 } (.capture (r.groups + 1))
  | some name =>
    exact skeleton_openGroup { r with groups := r.groups + 1, names := (name,r.groups + 1) :: r.names }
      (.capture (r.groups + 1))

lemma skeleton_refer (n : Nat) : r.skeleton.refer n = (r.refer n).map skeleton := by
  have hgroups : r.skeleton.groups = r.groups := rfl
  unfold refer
  rw [hgroups]
  split
  · rfl
  · exact congrArg Except.ok (skeleton_push { r with referenced := n :: r.referenced } ⟨.backref n,true⟩).symm

lemma skeleton_referByName (name : String) : r.skeleton.referByName name = (r.referByName name).map skeleton := by
  have hnames : r.skeleton.names = r.names := rfl
  unfold referByName
  rw [hnames]
  cases r.names.lookup name with
  | some n => exact r.skeleton_refer n
  | none =>
    dsimp only
    split
    · exact r.skeleton_refer _
    · rfl

lemma skeleton_repeatPiece (least : Nat) (most : Option Nat) (greedy possessive : Bool) :
    r.skeleton.repeatPiece least most true possessive = (r.repeatPiece least most greedy possessive).map skeleton := by
  unfold repeatPiece
  cases hp : r.pending with
  | none =>
    simp only [skeleton,hp,Option.map_none]
    rfl
  | some p =>
    have hpending : r.skeleton.pending = some p.skeleton := by simp only [skeleton,hp,Option.map_some]
    have hrepeatable : p.skeleton.repeatable = p.repeatable := rfl
    rw [hpending]
    dsimp only
    rw [hrepeatable]
    split
    · rfl
    · refine congrArg Except.ok (Eq.trans ?_ (skeleton_flush _).symm)
      cases possessive with
      | true => rfl
      | false => rfl

lemma skeleton_last (g : OpenGroup) : g.skeleton.last = g.last.skeleton := by
  obtain ⟨kind,branches,pieces⟩ := g
  cases pieces with
  | nil => rfl
  | cons p pieces =>
    cases pieces with
    | nil => rfl
    | cons q pieces =>
      simp only [OpenGroup.last,OpenGroup.skeleton,Piece.skeleton,List.map_cons,Pattern.skeleton_cats,
        List.map_reverse,List.map_map]
      rfl

lemma skeleton_contents : r.skeleton.contents =
    r.contents.map (fun x => (x.1.map Pattern.skeleton,x.2.skeleton)) := by
  have hcurrent : r.skeleton.flush.current = r.flush.current.skeleton := by
    rw [← skeleton_flush]
    rfl
  have hbranches : r.flush.current.skeleton.branches = r.flush.current.branches.map Pattern.skeleton := rfl
  unfold contents
  dsimp only
  rw [hcurrent,skeleton_last,hbranches]
  cases r.flush.current.branches with
  | nil =>
    have hmixed : (r.skeleton.numbered && !r.skeleton.names.isEmpty) = (r.numbered && !r.names.isEmpty) := rfl
    rw [hmixed]
    cases r.numbered && !r.names.isEmpty with
    | true => rfl
    | false => rfl
  | cons b bs =>
    simp only [List.map_cons,Except.map,Piece.skeleton,Pattern.skeleton_alts,List.map_reverse]

lemma skeleton_lookBack (negated : Bool) (p : Pattern) :
    lookBack negated p.skeleton = (lookBack negated p).map Pattern.skeleton := by
  unfold lookBack
  rw [Pattern.width?_skeleton]
  cases p.width? with
  | some width => rfl
  | none => rfl

lemma skeleton_mapM_lookBack (negated : Bool) (ps : List Pattern) :
    (ps.map Pattern.skeleton).mapM (lookBack negated) =
      (ps.mapM (lookBack negated)).map (List.map Pattern.skeleton) := by
  induction ps with
  | nil => rfl
  | cons p ps ih =>
    rw [List.map_cons,List.mapM_cons,List.mapM_cons,skeleton_lookBack,ih]
    cases lookBack negated p with
    | error e => rfl
    | ok q =>
      cases ps.mapM (lookBack negated) with
      | error e => rfl
      | ok qs => rfl

lemma skeleton_lookBehind (negated : Bool) (ps : List Pattern) :
    lookBehind negated (ps.map Pattern.skeleton) = (lookBehind negated ps).map Pattern.skeleton := by
  have hinner : innerBranches (ps.map Pattern.skeleton) = (innerBranches ps).map Pattern.skeleton := by
    cases ps with
    | nil => rfl
    | cons p ps =>
      cases ps with
      | nil => exact Pattern.branches_skeleton p
      | cons q ps => rfl
  unfold lookBehind
  rw [← Pattern.skeleton_alts,Pattern.width?_skeleton]
  cases (Pattern.alts ps).width? with
  | some width => exact skeleton_lookBack negated _
  | none =>
    dsimp only
    rw [hinner,skeleton_mapM_lookBack]
    cases (innerBranches ps).mapM (lookBack negated) with
    | error e => rfl
    | ok parts =>
      cases negated with
      | true => exact congrArg Except.ok (Pattern.skeleton_cats parts).symm
      | false => exact congrArg Except.ok (Pattern.skeleton_alts parts).symm

lemma skeleton_close : r.skeleton.close = r.close.map skeleton := by
  unfold close
  have houter : r.skeleton.outer = r.outer.map OpenGroup.skeleton := rfl
  have hkind : r.skeleton.current.kind = r.current.kind.skeleton := rfl
  rw [houter,hkind,skeleton_contents]
  cases r.outer with
  | nil => rfl
  | cons parent outer =>
    cases r.contents with
    | error e => rfl
    | ok x =>
      obtain ⟨branches,whole⟩ := x
      have hpush : ∀ f p, (({ r with pending := none, current := parent, outer, flags := f } : Reader).push p).skeleton =
          ({ r.skeleton with pending := none, current := parent.skeleton, outer := outer.map OpenGroup.skeleton } :
            Reader).push p.skeleton :=
        fun f p => skeleton_push _ p
      cases r.current.kind with
      | capture n => exact congrArg Except.ok (hpush r.flags ⟨.group n whole.pattern,true⟩).symm
      | plain outside => exact congrArg Except.ok (hpush outside _).symm
      | atomic => exact congrArg Except.ok (hpush r.flags ⟨.atomic false whole.pattern,true⟩).symm
      | look behind negated =>
        cases behind with
        | false => exact congrArg Except.ok (hpush r.flags ⟨.look .ahead negated false whole.pattern,false⟩).symm
        | true =>
          simp only [Except.map,List.map_cons,GroupKind.skeleton,bind,Except.bind,skeleton_lookBehind]
          cases lookBehind negated branches with
          | error e => rfl
          | ok p => exact congrArg Except.ok (hpush r.flags ⟨p,false⟩).symm

/-- A token leads from skeleton to skeleton. -/
theorem skeleton_apply (x : Lexeme) : r.skeleton.apply x.skeleton = (r.apply x).map skeleton := by
  cases x with
  | piece p => exact congrArg Except.ok (r.skeleton_push p).symm
  | flags f => exact congrArg Except.ok (skeleton_push { r with flags := f } .nothing).symm
  | bar => exact congrArg Except.ok r.skeleton_endBranch.symm
  | close => exact r.skeleton_close
  | rounds least most greedy possessive => exact r.skeleton_repeatPiece least most greedy possessive
  | atomic => exact congrArg Except.ok (r.skeleton_openGroup .atomic).symm
  | look behind negated => exact congrArg Except.ok (r.skeleton_openGroup (.look behind negated)).symm
  | capture name => exact congrArg Except.ok (r.skeleton_openCapture name).symm
  | plain inside => exact congrArg Except.ok (skeleton_openGroup { r with flags := inside } (.plain r.flags)).symm
  | numberRef n => exact skeleton_refer { r with numbered := true } n
  | nameRef name => exact r.skeleton_referByName name

/-- Readers of one skeleton go on with tokens of one skeleton, or neither does. -/
lemma exists_apply_of_skeleton {r s r' : Reader} {x y : Lexeme} (hs : s.skeleton = r.skeleton)
    (hy : y.skeleton = x.skeleton) (h : r.apply x = .ok r') : ∃ s', s.apply y = .ok s' ∧ s'.skeleton = r'.skeleton := by
  have hmap := s.skeleton_apply y
  rw [hs,hy,r.skeleton_apply,h] at hmap
  exact except_map_eq_ok.mp hmap.symm

end Reader
end Highlight.Regex

/-!
A text that fits is read under all flags or under none, apart from the extended mode. Its tokens have one skeleton.
-/
namespace Highlight.Rules

open Regex

variable {named pending : Bool} {d n : Nat} {f f' g : Flags} {c : Char} {cs cs' rest : List Char} {x : Lexeme}

section Tokens

/-- Some token of the skeleton of `x` is read, up to the same place. -/
abbrev ReadsLike (x : Lexeme) (cs : List Char) (read : LexResult) : Prop :=
  ∃ y, read = .ok (y,cs) ∧ y.skeleton = x.skeleton

lemma ReadsLike.refl {read : LexResult} (h : read = .ok (x,cs)) : ReadsLike x cs read := ⟨x,h,rfl⟩

lemma setFlag?_anyFlags {on : Bool} (h : setFlag? f on c = some g) (f' : Flags) : ∃ g', setFlag? f' on c = some g' := by
  unfold setFlag? at h ⊢
  split at h
  · exact ⟨_,rfl⟩
  · exact ⟨_,rfl⟩
  · exact ⟨_,rfl⟩
  · exact ⟨_,rfl⟩
  · exact ⟨_,rfl⟩
  · split at h
    · rename_i hon
      exact ⟨f',if_pos hon⟩
    · cases h
  · cases h

lemma lexFlags_anyFlags {off : Bool} {count : Nat} (hx : f.extended = false) (hx' : f'.extended = false)
    (hf : FitsFrom named d cs) (hflags : 'x' ∉ cs.takeWhile isFlagChar) (h : lexFlags n f off count cs = .ok (x,cs')) :
    ReadsLike x cs' (lexFlags n f' off count cs) := by
  induction n generalizing f f' off count cs with
  | zero => cases h
  | succ n ih =>
    rw [lexFlags,hx,skipBlanks_eq hf.noComment] at h
    rw [lexFlags,hx',skipBlanks_eq hf.noComment]
    cases cs with
    | nil => cases h
    | cons c rest =>
      -- a character between the question mark and the end of the flags
      have hnext : ∀ {g g' : Flags} {off' : Bool}, g.extended = false → g'.extended = false → isFlagChar c = true →
          lexFlags n g off' (count + 1) rest = .ok (x,cs') → ReadsLike x cs' (lexFlags n g' off' (count + 1) rest) := by
        intro g g' off' hg hg' hc h
        rw [List.takeWhile_cons_of_pos hc] at hflags
        have hskips : Skips named d (c :: rest) d rest := .cons (spares_isFlagChar.ordinary hc) rest
        exact ih hg hg' (hskips.fits hf) (fun hmem => hflags (List.mem_cons_of_mem c hmem)) h
      simp only [bind,Except.bind,pure,Except.pure] at h ⊢
      by_cases hminus : c = '-'
      · rw [if_pos hminus] at h ⊢
        cases off with
        | true => cases h
        | false => exact hnext hx hx' (by rw [hminus]; rfl) h
      · rw [if_neg hminus] at h ⊢
        by_cases hclose : c = ')'
        · rw [if_pos hclose] at h ⊢
          split at h
          · cases h
          · rename_i hcount
            obtain ⟨rfl,rfl⟩ := Prod.mk.inj (Except.ok.inj h)
            exact ⟨.flags f',if_neg hcount,rfl⟩
        · rw [if_neg hclose] at h ⊢
          by_cases hcolon : c = ':'
          · rw [if_pos hcolon] at h ⊢
            split at h
            · cases h
            · rename_i hcount
              obtain ⟨rfl,rfl⟩ := Prod.mk.inj (Except.ok.inj h)
              exact ⟨.plain f',if_neg hcount,rfl⟩
          · rw [if_neg hcolon] at h ⊢
            cases hset : setFlag? f (!off) c with
            | none =>
              rw [hset] at h
              cases h
            | some g =>
              rw [hset] at h
              obtain ⟨g',hset'⟩ := setFlag?_anyFlags hset f'
              rw [hset']
              have hxc : c ≠ 'x' := by
                rintro rfl
                rw [List.takeWhile_cons_of_pos rfl] at hflags
                exact hflags List.mem_cons_self
              obtain ⟨hc,hext⟩ := setFlag?_eq_some hset hxc
              obtain ⟨-,hext'⟩ := setFlag?_eq_some hset' hxc
              exact hnext (hext.trans hx) (hext'.trans hx') hc h

lemma lexSpecial_anyFlags (hx : f.extended = false) (hx' : f'.extended = false)
    (hfits : FitsFrom named d ('(' :: '?' :: cs)) (h : lexSpecial f cs = .ok (x,cs')) :
    ReadsLike x cs' (lexSpecial f' cs) := by
  obtain ⟨-,hflags,-,-,hrest⟩ := fitsFrom_special hfits
  by_cases hhead : ∃ c ∈ ['=','!','<','P','>','('], cs.head? = some c
  · obtain ⟨c,hc,hhead⟩ := hhead
    obtain ⟨cs,rfl⟩ := List.head?_eq_some_iff.mp hhead
    simp only [List.mem_cons,List.not_mem_nil,or_false] at hc
    rcases hc with rfl | rfl | rfl | rfl | rfl | rfl
    · exact .refl h
    · exact .refl h
    · by_cases hequals : cs.head? = some '='
      · obtain ⟨cs,rfl⟩ := List.head?_eq_some_iff.mp hequals
        exact .refl h
      by_cases hbang : cs.head? = some '!'
      · obtain ⟨cs,rfl⟩ := List.head?_eq_some_iff.mp hbang
        exact .refl h
      rw [lexSpecial_angle hequals hbang] at h ⊢
      exact .refl h
    · by_cases hless : cs.head? = some '<'
      · obtain ⟨cs,rfl⟩ := List.head?_eq_some_iff.mp hless
        exact .refl h
      by_cases hequals : cs.head? = some '='
      · obtain ⟨cs,rfl⟩ := List.head?_eq_some_iff.mp hequals
        exact .refl h
      -- no flag has this letter
      rw [lexSpecial] at h
      · exact absurd h (lexFlags_P hx hrest.noComment)
      case x_6 =>
        rintro _ heq
        exact hless (by rw [(List.cons.inj heq).2]; rfl)
      case x_7 =>
        rintro _ heq
        exact hequals (by rw [(List.cons.inj heq).2]; rfl)
      all_goals simp
    · exact .refl h
    · cases h
  · simp only [not_exists,not_and] at hhead
    rw [lexSpecial_flags hhead] at h ⊢
    exact lexFlags_anyFlags hx hx' hrest hflags h

lemma lexBackslash_anyFlags (h : lexBackslash f cs = .ok (x,cs')) : ReadsLike x cs' (lexBackslash f' cs) := by
  cases cs with
  | nil => cases h
  | cons e cs =>
    by_cases hother : e ∈ ['k','A','z','b','B']
    · simp only [List.mem_cons,List.not_mem_nil,or_false] at hother
      rcases hother with rfl | rfl | rfl | rfl | rfl
      · by_cases hless : cs.head? = some '<'
        · obtain ⟨cs,rfl⟩ := List.head?_eq_some_iff.mp hless
          exact .refl h
        · rw [lexBackslash] at h
          · cases h
          · rintro cs rfl
            exact hless rfl
      · exact .refl h
      · exact .refl h
      · exact .refl h
      · exact .refl h
    · rw [lexBackslash_other hother] at h ⊢
      unfold lexEscape at h ⊢
      by_cases hdigit : e.isDigit = true
      · rw [if_pos hdigit] at h ⊢
        exact .refl h
      · rw [if_neg hdigit] at h ⊢
        obtain ⟨⟨a,rest⟩,ha,heq⟩ := except_map_eq_ok.mp h
        obtain ⟨rfl,rfl⟩ := Prod.mk.inj heq
        obtain ⟨b,hb,halike⟩ := readEscape_alike ha f'.fold
        rw [hb]
        refine ⟨_,rfl,?_⟩
        cases halike with
        | char c => rfl
        | «class» s s' => rfl

/-- A token is read under other flags as well, with what they make of it. -/
theorem lexeme_anyFlags (hx : f.extended = false) (hx' : f'.extended = false) (hfits : FitsFrom named d (c :: cs))
    (h : lexeme f pending c cs = .ok (x,cs')) : ReadsLike x cs' (lexeme f' pending c cs) := by
  have hrounds : ∀ {least : Nat} {most : Option Nat} {after : List Char}, Skips named d (c :: cs) d after →
      lexRounds f least most after = .ok (x,cs') → ReadsLike x cs' (lexRounds f' least most after) := by
    intro least most after hskips h
    have hn := (hskips.fits hfits).noComment
    rw [lexRounds_eq hx hn] at h
    obtain ⟨rfl,rfl⟩ := Prod.mk.inj (Except.ok.inj h)
    exact ⟨_,lexRounds_eq hx' hn,rfl⟩
  by_cases hspecial : c ∈ ['|',')','?','*','+','\x7b','(','\\','[','.','^','$']
  · have hone : IsOrdinary c ∧ c ≠ ')' → Skips named d (c :: cs) d cs := fun hc => .cons hc cs
    have hpiece : ∀ {p p' : Piece}, lexeme f pending c cs = .ok (.piece p,cs) →
        lexeme f' pending c cs = .ok (.piece p',cs) → p'.skeleton = p.skeleton →
          ReadsLike x cs' (lexeme f' pending c cs) := by
      intro p p' hlex hlex' hsame
      obtain ⟨rfl,rfl⟩ := Prod.mk.inj (Except.ok.inj (hlex.symm.trans h))
      exact ⟨_,hlex',congrArg Lexeme.piece hsame⟩
    simp only [List.mem_cons,List.not_mem_nil,or_false] at hspecial
    rcases hspecial with rfl | rfl | rfl | rfl | rfl | rfl | rfl | rfl | rfl | rfl | rfl | rfl
    · exact .refl h
    · exact .refl h
    · exact hrounds (hone ⟨⟨by decide,by decide,by decide⟩,by decide⟩) h
    · exact hrounds (hone ⟨⟨by decide,by decide,by decide⟩,by decide⟩) h
    · exact hrounds (hone ⟨⟨by decide,by decide,by decide⟩,by decide⟩) h
    · have hbrace := hone ⟨⟨by decide,by decide,by decide⟩,by decide⟩
      have hliteral : (Except.ok (.piece (.ofChar f '\x7b'),cs) : LexResult) = .ok (x,cs') →
          ReadsLike x cs' (.ok (.piece (.ofChar f' '\x7b'),cs)) := by
        intro h
        obtain ⟨rfl,rfl⟩ := Prod.mk.inj (Except.ok.inj h)
        exact ⟨_,rfl,rfl⟩
      simp only [lexeme,hx,hx'] at h ⊢
      cases hread : readBounds? false cs with
      | none =>
        rw [hread] at h
        exact hliteral h
      | some bounds =>
        rw [hread] at h
        cases pending with
        | true => exact hrounds (hbrace.trans (skips_readBounds? (hbrace.fits hfits) hread)) h
        | false => exact hliteral h
    · by_cases hq : cs.head? = some '?'
      · obtain ⟨cs,rfl⟩ := List.head?_eq_some_iff.mp hq
        rw [lexeme_special hx] at h
        rw [lexeme_special hx']
        exact lexSpecial_anyFlags hx hx' hfits h
      · have hrest := (fitsFrom_cons.mp hfits).2.2
        rw [nextToken_group hq] at hrest
        rw [lexeme_capture hx hq hrest.noComment] at h
        rw [lexeme_capture hx' hq hrest.noComment]
        exact .refl h
    · exact lexBackslash_anyFlags h
    · obtain ⟨⟨s,rest⟩,hs,h⟩ := except_bind_eq_ok.mp h
      obtain ⟨rfl,rfl⟩ := Prod.mk.inj (Except.ok.inj h)
      obtain ⟨s',hs'⟩ := readSet_fold hs f'.fold
      refine ⟨.piece (.ofSet s'),?_,rfl⟩
      simp only [lexeme,hs']
      rfl
    · exact hpiece rfl rfl rfl
    · exact hpiece rfl rfl rfl
    · exact hpiece rfl rfl rfl
  · rw [lexeme_char hspecial] at h ⊢
    obtain ⟨rfl,rfl⟩ := Prod.mk.inj (Except.ok.inj h)
    exact ⟨_,rfl,rfl⟩

end Tokens

section Readers

variable {r r' s : Reader}

/-- A step of the reader is one under other flags. -/
lemma readToken_anyFlags (hskeleton : s.skeleton = r.skeleton) (hr : r.Sound named) (hs : s.Sound named)
    (hfits : FitsFrom named r.outer.length (c :: rest)) (h : r.readToken c rest = .ok (r',cs)) :
    ∃ s', s.readToken c rest = .ok (s',cs) ∧ s'.skeleton = r'.skeleton ∧ r'.Sound named ∧ s'.Sound named ∧
      FitsFrom named r'.outer.length cs := by
  obtain ⟨hdepth,x,hlex,happly⟩ := readToken_eq_ok.mp h
  have hpending : s.pending.isSome = r.pending.isSome := by
    have hsame := congrArg (fun r => r.pending.isSome) hskeleton
    simpa only [Reader.skeleton,Option.isSome_map] using hsame
  have houter : s.outer.length = r.outer.length := by
    have hsame := congrArg (fun r => r.outer.length) hskeleton
    simpa only [Reader.skeleton,List.length_map] using hsame
  have hfits' : FitsFrom named s.outer.length (c :: rest) := by rwa [houter]
  obtain ⟨y,hlex',hsame⟩ := lexeme_anyFlags hr.extended hs.extended hfits hlex
  obtain ⟨s',happly',hskeleton'⟩ := Reader.exists_apply_of_skeleton hskeleton hsame happly
  have hx := lexeme_lexes hr.extended hfits hlex
  have hy := lexeme_lexes hs.extended hfits' hlex'
  obtain ⟨hr',-,hdepth'⟩ := hr.apply hx.sound happly
  refine ⟨s',readToken_eq_ok.mpr ⟨?_,y,?_,happly'⟩,hskeleton',hr',(hs.apply hy.sound happly').1,?_⟩
  · rwa [houter]
  · rwa [hpending]
  · rw [hdepth']
    exact hx.fits

/-- A text that fits is read under other flags, with the same groups open at its end. -/
theorem readAll_anyFlags (hskeleton : s.skeleton = r.skeleton) (hr : r.Sound named) (hs : s.Sound named)
    (hfits : FitsFrom named r.outer.length cs) (h : r.readAll n cs = .ok r') :
    ∃ s', s.readAll n cs = .ok s' ∧ s'.skeleton = r'.skeleton ∧ s'.Sound named := by
  induction n generalizing r s cs with
  | zero =>
    obtain rfl := Except.ok.inj h
    exact ⟨s,rfl,hskeleton,hs⟩
  | succ n ih =>
    cases cs with
    | nil =>
      rw [readAll_nil hr.extended] at h
      obtain rfl := Except.ok.inj h
      exact ⟨s,readAll_nil hs.extended,hskeleton,hs⟩
    | cons c rest =>
      rw [readAll_cons hr.extended hfits.noComment,except_bind_eq_ok] at h
      obtain ⟨⟨r₁,rest₁⟩,htoken,h⟩ := h
      obtain ⟨s₁,htoken',hskeleton₁,hr₁,hs₁,hfits₁⟩ := readToken_anyFlags hskeleton hr hs hfits htoken
      rw [readAll_cons hs.extended hfits.noComment,htoken']
      exact ih hskeleton₁ hr₁ hs₁ hfits₁ h

/-- A rule that is read alone is read alone under other flags. -/
theorem Part.Proper.anyFlags {x : Part} (h : x.Proper f named) (hx : f.extended = false) (hx' : f'.extended = false) :
    ∃ y : Part, y.text = x.text ∧ y.Proper f' named := by
  obtain ⟨n,hn,hrun⟩ := h.reads.run
  obtain ⟨s,hrun',hskeleton,hs⟩ := readAll_anyFlags (r := { flags := f }) (s := { flags := f' }) rfl (sound_start hx named)
    (sound_start hx' named) h.fits hrun
  have houter : s.outer = [] := by
    have hsame := congrArg Reader.outer hskeleton
    simp only [Reader.skeleton,h.reads.outer,List.map_nil,List.map_eq_nil_iff] at hsame
    exact hsame
  obtain ⟨branches,whole,hcontents⟩ := Enclosure.exists_contents hs.unmixed
  exact ⟨⟨x.text,s,whole.pattern⟩,rfl,⟨⟨n,hn,hrun'⟩,houter,branches,whole,hcontents,rfl⟩,h.fits⟩

end Readers
end Highlight.Rules
