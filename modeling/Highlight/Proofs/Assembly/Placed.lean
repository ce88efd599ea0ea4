import Highlight.Proofs.Assembly.Sharing
import Highlight.Proofs.Assembly.Table

/-!
Below which node a node is made. The walk makes every node other than that of the top mode below one
that was made before it, and whatever it makes has a place where it is found again.
-/
namespace Highlight.Assembly

variable {g : Grammar} {s s' : Drafts} {origin : Origin} {m : Mode} {parent : Option NodeId}
  {id : NodeId}

/-- How a place was given: to a mode below a parent, the place of which comes before. -/
structure MadeBelow (g : Grammar) (key : Origin × Option NodeId) (m : Mode) (parent : Option NodeId)
    (id : NodeId) : Prop where
  kept : key = keyOf g key.1 m parent
  mode : key.1.mode? g = some m
  root : key.1 = .root ↔ parent = none
  before : ∀ p, parent = some p → p < id

/-- Drafts that each have a place, and places that were all given so. -/
structure Drafts.Placed (g : Grammar) (s : Drafts) : Prop where
  made : ∀ key id, s.places.lookup key = some id → ∃ m parent, MadeBelow g key m parent id
  all : ∀ id < s.drafts.size, ∃ key, s.places.lookup key = some id

namespace Drafts.Placed

lemma empty : ({} : Drafts).Placed g where
  made _ _ h := by cases h
  all _ h := absurd h (Nat.not_lt_zero _)

/-- A new draft at a new place. -/
lemma push (h : s.Placed g) {key : Origin × Option NodeId} (hnew : s.places.lookup key = none)
    (hmade : MadeBelow g key m parent s.drafts.size) (d : Draft) :
    ({ drafts := s.drafts.push d, places := (key,s.drafts.size) :: s.places } : Drafts).Placed g := by
  refine ⟨fun key' id hid => ?_,fun id hid => ?_⟩
  · rw [List.lookup_cons] at hid
    split at hid
    · rename_i heq
      obtain rfl := Option.some.inj hid
      rw [beq_iff_eq.mp heq]
      exact ⟨m,parent,hmade⟩
    · exact h.made key' id hid
  · rw [Array.size_push] at hid
    rcases Nat.lt_succ_iff_lt_or_eq.mp hid with hid | rfl
    · obtain ⟨key',hkey'⟩ := h.all id hid
      refine ⟨key',?_⟩
      rw [List.lookup_cons]
      split
      · rename_i heq
        rw [beq_iff_eq.mp heq,hnew] at hkey'
        cases hkey'
      · exact hkey'
    · exact ⟨key,List.lookup_cons_self⟩

lemma modify (h : s.Placed g) (id : NodeId) (f : Draft → Draft) :
    ({ s with drafts := s.drafts.modify id f } : Drafts).Placed g :=
  ⟨h.made,fun i hi => h.all i (Nat.lt_of_lt_of_eq hi Array.size_modify)⟩

end Drafts.Placed

section Walks

/-- A walk keeps the places that there are, and gives others as it should. -/
def Onward (g : Grammar) (s s' : Drafts) : Prop := s'.Placed g ∧ s.drafts.size ≤ s'.drafts.size

lemma Onward.refl (hs : s.Placed g) : Onward g s s := ⟨hs,Nat.le_refl _⟩

lemma Onward.trans {s'' : Drafts} (h : Onward g s s') (h' : Onward g s' s'') : Onward g s s'' :=
  ⟨h'.1,Nat.le_trans h.2 h'.2⟩

lemma ensures_mapM_onward {α β : Type} {f : α → Walk β} {l : List α} (hs : s.Placed g)
    (hf : ∀ a ∈ l, ∀ s', Onward g s s' → (f a).Ensures s' (fun _ => Onward g s')) :
    (l.mapM f).Ensures s (fun _ => Onward g s) := by
  refine (Walk.ensures_mapM (I := Onward g s) (P := fun _ _ => True) (fun a ha s' hs' => ?_)
    (fun _ _ _ _ _ => trivial) (.refl hs)).mono (fun _ _ h => h.1)
  exact (hf a ha s' hs').mono (fun _ s'' h => ⟨hs'.trans h,h.2,trivial⟩)

lemma changeDraft_onward (hs : s.Placed g) (id : NodeId) (f : Draft → Draft) :
    (changeDraft id f).Ensures s (fun _ => Onward g s) :=
  Walk.ensures_modify ⟨hs.modify id f,Array.size_modify.symm.le⟩

lemma placeChild_onward {placeMode : Origin → Mode → Walk NodeId} {child : Child} (hs : s.Placed g)
    (hplace : ∀ origin m s', origin ≠ .root → origin.mode? g = some m → Onward g s s' →
      (placeMode origin m).Ensures s' (fun _ => Onward g s')) :
    (placeChild g placeMode id child).Ensures s (fun _ => Onward g s) := by
  cases child with
  | self => exact Walk.ensures_pure (.refl hs)
  | mode child =>
    refine (Walk.ensures_lift _).bind (fun found s₁ h => ?_)
    obtain ⟨hfound,rfl⟩ := h
    exact ensures_mapM_onward hs (fun o ho s' h =>
      hplace o.1 o.2 s' (occurrences_origin hfound o ho) (occurrences_mode hfound o ho) h)

lemma placeNext_onward {placeMode : Origin → Mode → Walk NodeId} {next : Option ModeId}
    (hs : s.Placed g) (hplace : ∀ n m, next = some n → g.mode? n = some m →
      (placeMode (.table n) m).Ensures s (fun _ => Onward g s)) :
    (placeNext g placeMode id next).Ensures s (fun _ => Onward g s) := by
  cases next with
  | none => exact Walk.ensures_pure (.refl hs)
  | some n =>
    refine (Walk.ensures_lift _).bind (fun m s₁ h => ?_)
    rw [h.2]
    refine (hplace n m rfl (tableMode_eq_ok.mp h.1)).bind (fun node s₂ h₂ => ?_)
    exact (changeDraft_onward h₂.1 id _).mono (fun _ _ h => h₂.trans h)

/-- The references that the walk gives to a draft are places given so. -/
lemma references_onward {placeBelow placeBeside : Origin → Mode → Walk NodeId} {next : Option ModeId}
    (hs : s.Placed g) (hbelow : ∀ origin m s', origin ≠ .root → origin.mode? g = some m →
      Onward g s s' → (placeBelow origin m).Ensures s' (fun _ => Onward g s'))
    (hbeside : ∀ n m s', next = some n → g.mode? n = some m → Onward g s s' →
      (placeBeside (.table n) m).Ensures s' (fun _ => Onward g s')) :
    (do checkTop m parent
        let children ← (m.contains.getD []).mapM (placeChild g placeBelow id)
        changeDraft id ({ · with children := children.flatten })
        placeNext g placeBeside id next
        return id : Walk NodeId).Ensures s (fun _ => Onward g s) := by
  refine Walk.Ensures.bind (Q := fun _ s' => s' = s) ?_ (fun _ s₁ h => ?_)
  · rw [checkTop]
    split
    · exact Walk.ensures_throw _
    · exact Walk.ensures_pure rfl
  rw [h]
  refine (ensures_mapM_onward hs (fun child _ s' h' => placeChild_onward h'.1
    (fun origin m s'' horigin hmode h'' => hbelow origin m s'' horigin hmode (h'.trans h'')))).bind
    (fun children s₂ h₂ => ?_)
  refine (changeDraft_onward h₂.1 _ _).bind (fun _ s₃ h₃ => ?_)
  have hsofar := h₂.trans h₃
  exact (placeNext_onward h₃.1 (fun n m hn hm => hbeside n m s₃ hn hm hsofar)).bind
    (fun _ s₄ h₄ => Walk.ensures_pure (hsofar.trans h₄))

/-- Placing a mode below a parent. The induction is on the room for nested modes. -/
lemma place_onward {room : Nat} (hs : s.Placed g) (hmode : origin.mode? g = some m)
    (hroot : origin = .root ↔ parent = none) (hparent : ∀ p, parent = some p → p < s.drafts.size) :
    (place g g.parentDependencies room origin m parent).Ensures s (fun _ => Onward g s) := by
  induction room generalizing origin m parent s with
  | zero =>
    rw [place]
    refine Walk.ensures_get.bind (fun s₁ s₂ h => ?_)
    rw [h.1,h.2]
    split
    · exact Walk.ensures_pure (.refl hs)
    · exact Walk.ensures_throw _
  | succ room ih =>
    rw [place,keyOf_eq hmode hroot]
    refine Walk.ensures_get.bind (fun s₁ s₂ h => ?_)
    rw [h.1,h.2]
    split
    · exact Walk.ensures_pure (.refl hs)
    rename_i hnew
    refine (addDraft_ensures_eq _ _).bind (fun id s₁ h₁ => ?_)
    obtain ⟨rfl,h₁⟩ := h₁
    have hsize : s₁.drafts.size = s.drafts.size + 1 := by rw [h₁,Array.size_push]
    have hs₁ : s₁.Placed g := by
      rw [h₁]
      exact hs.push (Option.eq_none_iff_forall_ne_some.mpr hnew) ⟨rfl,hmode,hroot,hparent⟩ _
    refine (references_onward hs₁ (fun origin m s' horigin hmode h' => ?_)
      (fun n m' s' hn hm' h' => ?_)).mono (fun _ s' h' => ⟨h'.1,?_⟩)
    · refine ih h'.1 hmode ⟨fun h => absurd h horigin,fun h => absurd h (Option.some_ne_none _)⟩
        (fun p hp => ?_)
      obtain rfl := Option.some.inj hp
      exact Nat.lt_of_succ_le (hsize.symm.le.trans h'.2)
    · have hmode : (Origin.table n).mode? g = some m' := hm'
      refine ih h'.1 hmode ⟨Origin.noConfusion,fun h => ?_⟩ (fun p hp => ?_)
      · rw [h] at hn
        cases hn
      · exact Nat.lt_of_lt_of_le (hparent p hp) (Nat.le_of_succ_le (hsize.symm.le.trans h'.2))
    · exact Nat.le_of_succ_le (hsize.symm.le.trans h'.2)

end Walks

/-- Whatever the walk makes has a place, below one that was given before. -/
theorem walk_placed (h : walk g = .ok s) : s.Placed g := by
  obtain ⟨id,hrun⟩ := walk_eq_ok.mp h
  have hplace : (place g g.parentDependencies (maxNesting + 1) .root g.root none).Ensures {}
      (fun _ => Onward g {}) := place_onward .empty rfl (by simp) (fun p hp => by cases hp)
  exact (hplace _ _ hrun).1

/-- The node that a mode has below a parent: the one made for it there or, if its end does not depend on
the parent, the one that it has in all. -/
def CompiledUnder (g : Grammar) (p : NodeId) (m : Mode) (id : NodeId) : Prop :=
  ∃ s origin, walk g = .ok s ∧ origin ≠ .root ∧ origin.mode? g = some m ∧
    s.places.lookup (keyOf g origin m (some p)) = some id

/-- The node is found by walking. -/
lemma CompiledUnder.of_walk {p : NodeId} (origin : Origin) (horigin : origin ≠ .root)
    (hmode : origin.mode? g = some m)
    (h : (walk g).toOption.bind (fun s => s.places.lookup (keyOf g origin m (some p))) = some id) :
    CompiledUnder g p m id := by
  obtain ⟨s,hs,hplace⟩ := Option.bind_eq_some_iff.mp h
  exact ⟨s,origin,except_eq_ok_of_toOption hs,horigin,hmode,hplace⟩

end Highlight.Assembly

namespace Highlight

open Assembly

/-- Every node of a table but the first is that of a mode below a parent. -/
theorem Grammar.exists_compiledUnder {g : Grammar} {t : NodeTable} (h : g.assemble = .ok t)
    {id : NodeId} (hid : IsInner t.size id) : ∃ p < id, ∃ m, CompiledUnder g p m id := by
  obtain ⟨drafts,hdrafts,hsize,-⟩ := node_of_assemble h
  obtain ⟨s,hs,rfl⟩ := draftAll_eq_ok.mp hdrafts
  obtain ⟨key,hkey⟩ := (walk_placed hs).all id (hsize ▸ hid.2)
  obtain ⟨m,parent,hmade⟩ := (walk_placed hs).made key id hkey
  cases parent with
  | none =>
    have hroot : key = (.root,none) := by
      rw [hmade.kept,hmade.root.mpr rfl,keyOf,ite_self]
    rw [hroot,(walk_settled hs).1] at hkey
    exact absurd (Option.some.inj hkey).symm hid.1
  | some p =>
    refine ⟨p,hmade.before p rfl,m,s,key.1,hs,fun h => ?_,hmade.mode,hmade.kept ▸ hkey⟩
    cases hmade.root.mp h

end Highlight
