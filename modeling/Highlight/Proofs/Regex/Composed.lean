import Highlight.Proofs.Except
import Highlight.Regex.Reader

/-!
Properties that go from the parts of a pattern to the whole. If the pieces that tokens stand for have such
a property, so does all that a reader makes of them.
-/
namespace Highlight.Regex

/-- A property that a pattern has if its parts have it. Of groups, repetitions and back-references nothing is said. -/
structure Pattern.Composes (P : Pattern → Prop) : Prop where
  empty : P .empty
  cat {p q : Pattern} : P p → P q → P (.cat p q)
  /-- The reader takes alternations apart again. -/
  alt {p q : Pattern} : P (.alt p q) ↔ P p ∧ P q
  look {p : Pattern} (direction : Direction) (negated settled : Bool) :
    P p → P (.look direction negated settled p)
  atomic {p : Pattern} (settled : Bool) : P p → P (.atomic settled p)

variable {P : Pattern → Prop} {p q : Pattern} {ps : List Pattern}

namespace Pattern.Composes

variable (hP : Pattern.Composes P)
include hP

lemma cats (h : ∀ p ∈ ps, P p) : P (Pattern.cats ps) := by
  induction ps with
  | nil => exact hP.empty
  | cons p ps ih =>
    have hps := ih (fun q hq => h q (List.mem_cons_of_mem p hq))
    cases ps with
    | nil => exact h p List.mem_cons_self
    | cons q ps => exact hP.cat (h p List.mem_cons_self) hps

lemma alts (h : ∀ p ∈ ps, P p) : P (Pattern.alts ps) := by
  induction ps with
  | nil => exact hP.empty
  | cons p ps ih =>
    have hps := ih (fun q hq => h q (List.mem_cons_of_mem p hq))
    cases ps with
    | nil => exact h p List.mem_cons_self
    | cons q ps => exact hP.alt.mpr ⟨h p List.mem_cons_self,hps⟩

lemma branches (h : P p) : ∀ q ∈ p.branches, P q := by
  induction p with
  | alt p q hp hq =>
    intro x hx
    rcases List.mem_cons.mp hx with rfl | hx
    · exact (hP.alt.mp h).1
    · exact hq (hP.alt.mp h).2 x hx
  | _ =>
    intro x hx
    obtain rfl := List.mem_singleton.mp hx
    exact h

lemma lookBack {negated : Bool} (hp : P p) (h : Reader.lookBack negated p = .ok q) : P q := by
  unfold Reader.lookBack at h
  split at h
  · obtain rfl := Except.ok.inj h
    exact hP.look _ _ _ hp
  · cases h

lemma lookBehind {negated : Bool} (hps : ∀ p ∈ ps, P p) (h : Reader.lookBehind negated ps = .ok q) : P q := by
  unfold Reader.lookBehind at h
  split at h
  · exact hP.lookBack (hP.alts hps) h
  · obtain ⟨parts,hparts,h⟩ := except_bind_eq_ok.mp h
    have hinner : ∀ p ∈ Reader.innerBranches ps, P p := by
      unfold Reader.innerBranches
      split
      · exact hP.branches (hps _ List.mem_cons_self)
      · exact hps
    have hall : ∀ p ∈ parts, P p := by
      intro p hp
      obtain ⟨i,hi,rfl⟩ := List.mem_iff_getElem.mp hp
      obtain ⟨hlen,hget⟩ := list_mapM_eq_ok hparts
      rw [hlen] at hi
      obtain ⟨b,hb,hback⟩ := hget i _ (List.getElem?_eq_getElem hi)
      rw [List.getElem?_eq_getElem (by rwa [hlen])] at hb
      obtain rfl := Option.some.inj hb
      exact hP.lookBack (hinner _ (List.getElem_mem hi)) hback
    obtain rfl := Except.ok.inj h
    cases negated with
    | true => exact hP.cats hall
    | false => exact hP.alts hall

end Pattern.Composes

/-- What has been read of a group is as `P` says. -/
structure OpenGroup.All (P : Pattern → Prop) (g : OpenGroup) : Prop where
  branches : ∀ p ∈ g.branches, P p
  pieces : ∀ p ∈ g.pieces, P p.pattern

lemma OpenGroup.All.last {g : OpenGroup} (h : g.All P) (hP : Pattern.Composes P) : P g.last.pattern := by
  unfold OpenGroup.last
  split
  · exact hP.empty
  · rename_i p hp
    exact h.pieces p (by rw [hp]; exact List.mem_cons_self)
  · refine hP.cats (fun q hq => ?_)
    obtain ⟨p,hp,rfl⟩ := List.mem_map.mp hq
    exact h.pieces p (List.mem_reverse.mp hp)

/-- All that a reader has read is as `P` says. -/
structure Reader.All (P : Pattern → Prop) (r : Reader) : Prop where
  pending : ∀ p ∈ r.pending, P p.pattern
  current : r.current.All P
  outer : ∀ g ∈ r.outer, g.All P

namespace Reader.All

variable {r r' : Reader}

lemma flush (h : r.All P) : r.flush.All P := by
  unfold Reader.flush
  split
  · exact h
  · rename_i p hp
    refine ⟨nofun,⟨h.current.branches,?_⟩,h.outer⟩
    dsimp only
    split
    · exact h.current.pieces
    · intro q hq
      rcases List.mem_cons.mp hq with rfl | hq
      · exact h.pending q hp
      · exact h.current.pieces q hq

lemma push (h : r.All P) {p : Piece} (hp : P p.pattern) : (r.push p).All P := by
  refine ⟨fun q hq => ?_,h.flush.current,h.flush.outer⟩
  obtain rfl := Option.some.inj hq
  exact hp

lemma endBranch (h : r.All P) (hP : Pattern.Composes P) : r.endBranch.All P := by
  refine ⟨h.flush.pending,⟨fun p hp => ?_,nofun⟩,h.flush.outer⟩
  rcases List.mem_cons.mp hp with rfl | hp
  · refine hP.cats (fun q hq => ?_)
    obtain ⟨p,hp,rfl⟩ := List.mem_map.mp hq
    exact h.flush.current.pieces p (List.mem_reverse.mp hp)
  · exact h.flush.current.branches p hp

lemma openGroup (h : r.All P) (k : GroupKind) : (r.openGroup k).All P := by
  refine ⟨h.flush.pending,⟨nofun,nofun⟩,fun g hg => ?_⟩
  rcases List.mem_cons.mp hg with rfl | hg
  · exact h.flush.current
  · exact h.flush.outer g hg

lemma repeatPiece (h : r.All P) (hP : Pattern.Composes P) {least : Nat} {most : Option Nat}
    {greedy possessive : Bool} (hloop : ∀ p, P p → P (.loop p least most greedy))
    (hr : r.repeatPiece least most greedy possessive = .ok r') : r'.All P := by
  unfold Reader.repeatPiece at hr
  split at hr
  · cases hr
  · rename_i p hp
    split at hr
    · cases hr
    · obtain rfl := Except.ok.inj hr
      refine flush ⟨fun q hq => ?_,h.current,h.outer⟩
      obtain rfl := Option.some.inj hq
      have hlooped := hloop _ (h.pending p hp)
      cases possessive with
      | true => exact hP.atomic false hlooped
      | false => exact hlooped

lemma contents (h : r.All P) (hP : Pattern.Composes P) {branches : List Pattern} {whole : Piece}
    (hr : r.contents = .ok (branches,whole)) : (∀ p ∈ branches, P p) ∧ P whole.pattern := by
  have hlast := h.flush.current.last hP
  unfold Reader.contents at hr
  dsimp only at hr
  split at hr
  · split at hr
    · cases hr
    · obtain ⟨rfl,rfl⟩ := Prod.mk.inj (Except.ok.inj hr)
      exact ⟨fun p hp => List.mem_singleton.mp hp ▸ hlast,hlast⟩
  · obtain ⟨rfl,rfl⟩ := Prod.mk.inj (Except.ok.inj hr)
    have hall : ∀ p ∈ (r.flush.current.last.pattern :: r.flush.current.branches).reverse, P p := by
      intro p hp
      rcases List.mem_cons.mp (List.mem_reverse.mp hp) with rfl | hp
      · exact hlast
      · exact h.flush.current.branches p hp
    exact ⟨hall,hP.alts hall⟩

/-- The group that is closed becomes a piece of the one around it. -/
lemma close (h : r.All P) (hP : Pattern.Composes P)
    (hgroup : ∀ n p, r.current.kind = .capture n → P p → P (.group n p)) (hr : r.close = .ok r') :
    r'.All P := by
  unfold Reader.close at hr
  cases houter : r.outer with
  | nil =>
    rw [houter] at hr
    cases hr
  | cons parent outer =>
    rw [houter] at hr
    obtain ⟨⟨branches,whole⟩,hcontents,hr⟩ := except_bind_eq_ok.mp hr
    obtain ⟨hbranches,hwhole⟩ := h.contents hP hcontents
    have hparent : ∀ f, ({ r with pending := none, current := parent, outer, flags := f } : Reader).All P :=
      fun f => ⟨nofun,h.outer parent (by rw [houter]; exact List.mem_cons_self),
        fun g hg => h.outer g (by rw [houter]; exact List.mem_cons_of_mem parent hg)⟩
    dsimp only at hr
    cases hk : r.current.kind with
    | capture n =>
      rw [hk] at hr
      obtain rfl := Except.ok.inj hr
      exact (hparent r.flags).push (p := ⟨.group n whole.pattern,true⟩) (hgroup n _ hk hwhole)
    | plain outside =>
      rw [hk] at hr
      obtain rfl := Except.ok.inj hr
      exact (hparent outside).push hwhole
    | atomic =>
      rw [hk] at hr
      obtain rfl := Except.ok.inj hr
      exact (hparent r.flags).push (p := ⟨.atomic false whole.pattern,true⟩) (hP.atomic false hwhole)
    | look behind negated =>
      rw [hk] at hr
      cases behind with
      | false =>
        obtain rfl := Except.ok.inj hr
        exact (hparent r.flags).push (p := ⟨.look .ahead negated false whole.pattern,false⟩)
          (hP.look .ahead negated false hwhole)
      | true =>
        obtain ⟨q,hq,hr⟩ := except_bind_eq_ok.mp hr
        obtain rfl := Except.ok.inj hr
        exact (hparent r.flags).push (p := ⟨q,false⟩) (hP.lookBehind hbranches hq)

lemma finish (h : r.All P) (hP : Pattern.Composes P) (hp : r.finish = .ok p) : P p := by
  unfold Reader.finish at hp
  split at hp
  · cases hp
  · obtain ⟨⟨branches,whole⟩,hcontents,hp⟩ := except_bind_eq_ok.mp hp
    exact Except.ok.inj hp ▸ (h.contents hP hcontents).2

end Reader.All
end Highlight.Regex
