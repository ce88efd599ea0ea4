import Highlight.Proofs.Assembly.Dependence
import Highlight.Proofs.Assembly.Walk
import Highlight.Proofs.Except
import Mathlib.Data.List.Forall2

/-!
What the drafts of shared places say. The place of a mode is found under the mode's origin and, if it
depends on its parent, under the parent's place. Whoever finds a place there finds the draft that
would have been made anew: the draft of the mode below that parent, whose references are in turn the
places found for the modes that it contains and for the one that follows it.
-/
namespace Highlight.Assembly

variable {g : Grammar} {s s' s'' : Drafts} {origin : Origin} {m : Mode} {id : NodeId}

/-- The mode that comes from somewhere. -/
def Origin.mode? (g : Grammar) : Origin → Option Mode
  | .root => some g.root
  | .table id => g.mode? id
  | .variant id index => do
    let m ← g.mode? id
    let variants ← m.variants
    return m.inherit (← variants[index]?)

lemma tableMode_eq_ok {id : ModeId} : tableMode g id = .ok m ↔ g.mode? id = some m := by
  rw [tableMode]
  cases g.mode? id with
  | none => exact ⟨nofun,nofun⟩
  | some m' => exact ⟨fun h => congrArg some (Except.ok.inj h),fun h => congrArg Except.ok (Option.some.inj h)⟩

lemma occurrences_mode {id : ModeId} {found : List (Origin × Mode)} (h : occurrences g id = .ok found) :
    ∀ o ∈ found, o.1.mode? g = some o.2 := by
  intro o ho
  rw [occurrences] at h
  cases hm : tableMode g id with
  | error e =>
    rw [hm] at h
    cases h
  | ok m =>
    have hmode := tableMode_eq_ok.mp hm
    rw [hm] at h
    simp only [bind,Except.bind] at h
    split at h
    · cases h
      rw [List.mem_singleton.mp ho]
      exact hmode
    · rename_i variants hvariants
      cases h
      obtain ⟨i,hi,rfl⟩ := List.mem_mapIdx.mp ho
      simp [Origin.mode?,hmode,hvariants,hi]

/-- Under what the place of a mode below a parent is kept. -/
def keyOf (g : Grammar) (origin : Origin) (m : Mode) (parent : Option NodeId) : Origin × Option NodeId :=
  (origin,if g.dependsOnParent m then parent else none)

lemma keyOf_eq (hmode : origin.mode? g = some m) {parent : Option NodeId}
    (hroot : origin = .root ↔ parent = none) :
    (origin,if dependsOnParent g g.parentDependencies origin m then parent else none) =
      keyOf g origin m parent := by
  cases origin with
  | root => rw [hroot.mp rfl,keyOf,ite_self,ite_self]
  | table id =>
    obtain ⟨hid,rfl⟩ := Array.getElem?_eq_some_iff.mp hmode
    simp [keyOf,dependsOnParent,Grammar.parentDependencies,hid]
  | variant id index => rfl

/-- Where what a child of a mode stands for has its places: the child itself below the mode, or the
mode's own place. -/
def PlacesChild (g : Grammar) (s : Drafts) (id : NodeId) : Child → List NodeId → Prop
  | .self, ids => ids = [id]
  | .mode child, ids => ∃ found, occurrences g child = .ok found ∧
      List.Forall₂ (fun o i => s.places.lookup (keyOf g o.1 o.2 (some id)) = some i) found ids

/-- Where what follows a mode has its place, given the parent that the mode's place is kept under. -/
def PlacesNext (g : Grammar) (s : Drafts) (owner : Option NodeId) :
    Option ModeId → Option NodeId → Prop
  | none, id => id = none
  | some next, id => ∃ m i, g.mode? next = some m ∧ id = some i ∧
      s.places.lookup (keyOf g (.table next) m owner) = some i

/-- A finished draft at a place, made below a parent with some terminator. If the mode ends with its
parent, the parent is the one that the place is kept under. -/
structure Settles (g : Grammar) (s : Drafts) (key : Origin × Option NodeId) (id : NodeId) (m : Mode)
    (parentTerminator : Option String) (d : Draft) : Prop where
  mode : key.1.mode? g = some m
  draft : s.drafts[id]? = some d
  own : d = { Draft.of m parentTerminator with children := d.children, starts := d.starts }
  root : key.1 = .root ↔ parentTerminator = none
  parent : m.endsWithParent = true → ∀ terminator, parentTerminator = some terminator →
    ∃ p d', key.2 = some p ∧ s.drafts[p]? = some d' ∧ d'.terminator = terminator
  children : ∃ groups, d.children = groups.flatten ∧
    List.Forall₂ (PlacesChild g s id) (m.contains.getD []) groups
  starts : PlacesNext g s key.2 (parentTerminator.bind fun _ => m.starts) d.starts

def Settled (g : Grammar) (s : Drafts) (key : Origin × Option NodeId) (id : NodeId) : Prop :=
  ∃ m parentTerminator d, Settles g s key id m parentTerminator d

/-- The drafts of a later moment of the walk. Places once given stay, those given meanwhile are
settled, and drafts stay as they are, apart from the references of some that are not finished yet. -/
structure Extends (g : Grammar) (unfinished : NodeId → Prop) (s s' : Drafts) : Prop where
  drafts : ∀ i d, s.drafts[i]? = some d →
    ∃ d', s'.drafts[i]? = some d' ∧ d'.terminator = d.terminator ∧ (¬ unfinished i → d' = d)
  places : ∀ key i, s.places.lookup key = some i → s'.places.lookup key = some i
  settled : ∀ key i, s'.places.lookup key = some i →
    s.places.lookup key = some i ∨ s.drafts.size ≤ i ∧ Settled g s' key i

lemma PlacesChild.mono (hplaces : ∀ key i, s.places.lookup key = some i → s'.places.lookup key = some i)
    {child : Child} {ids : List NodeId} (h : PlacesChild g s id child ids) : PlacesChild g s' id child ids := by
  cases child with
  | self => exact h
  | mode child =>
    obtain ⟨found,hfound,hids⟩ := h
    exact ⟨found,hfound,hids.imp (fun _ _ h => hplaces _ _ h)⟩

lemma PlacesNext.mono (hplaces : ∀ key i, s.places.lookup key = some i → s'.places.lookup key = some i)
    {owner : Option NodeId} {next : Option ModeId} {id : Option NodeId} (h : PlacesNext g s owner next id) :
    PlacesNext g s' owner next id := by
  cases next with
  | none => exact h
  | some next =>
    obtain ⟨m,i,hm,hid,hi⟩ := h
    exact ⟨m,i,hm,hid,hplaces _ _ hi⟩

namespace Extends

variable {unfinished : NodeId → Prop}

lemma refl (s : Drafts) : Extends g unfinished s s :=
  ⟨fun _ d hd => ⟨d,hd,rfl,fun _ => rfl⟩,fun _ _ h => h,fun _ _ h => .inl h⟩

lemma draft (h : Extends g unfinished s s') {i : NodeId} {d : Draft} (hd : s.drafts[i]? = some d)
    (hi : ¬ unfinished i) : s'.drafts[i]? = some d := by
  obtain ⟨d',hd',-,hsame⟩ := h.drafts i d hd
  rw [hd',hsame hi]

lemma size_le (h : Extends g unfinished s s') : s.drafts.size ≤ s'.drafts.size := by
  by_contra hlt
  obtain ⟨d',hd',-⟩ := h.drafts s'.drafts.size _ (Array.getElem?_eq_getElem (by omega))
  rw [Array.getElem?_eq_none (Nat.le_refl _)] at hd'
  cases hd'

/-- A settled place stays so while its draft stays as it is. -/
lemma settled_of (h : Extends g unfinished s s') {key : Origin × Option NodeId} {i : NodeId}
    (hi : ¬ unfinished i) (hs : Settled g s key i) : Settled g s' key i := by
  obtain ⟨m,parentTerminator,d,hd⟩ := hs
  obtain ⟨groups,hflat,hgroups⟩ := hd.children
  refine ⟨m,parentTerminator,d,hd.mode,h.draft hd.draft hi,hd.own,hd.root,fun hends terminator hterminator => ?_,
    ⟨groups,hflat,hgroups.imp (fun _ _ hchild => hchild.mono h.places)⟩,hd.starts.mono h.places⟩
  obtain ⟨p,d',hp,hd',hterminator⟩ := hd.parent hends terminator hterminator
  obtain ⟨d'',hd'',hsame,-⟩ := h.drafts p d' hd'
  exact ⟨p,d'',hp,hd'',hsame.trans hterminator⟩

lemma trans (h : Extends g unfinished s s') (h' : Extends g unfinished s' s'')
    (hbefore : ∀ i, unfinished i → i < s.drafts.size) : Extends g unfinished s s'' := by
  refine ⟨fun i d hd => ?_,fun key i hi => h'.places key i (h.places key i hi),fun key i hi => ?_⟩
  · obtain ⟨d',hd',hsame,hdone⟩ := h.drafts i d hd
    obtain ⟨d'',hd'',hsame',hdone'⟩ := h'.drafts i d' hd'
    exact ⟨d'',hd'',hsame'.trans hsame,fun hi => (hdone' hi).trans (hdone hi)⟩
  · rcases h'.settled key i hi with hi | ⟨hnew,hi⟩
    · refine (h.settled key i hi).imp_right (fun ⟨hnew,hi⟩ =>
        ⟨hnew,h'.settled_of (fun hun => Nat.not_lt.mpr hnew (hbefore i hun)) hi⟩)
    · exact .inr ⟨Nat.le_trans h.size_le hnew,hi⟩

lemma weaken (h : Extends g (fun _ => False) s s') : Extends g unfinished s s' := by
  refine ⟨fun i d hd => ?_,h.places,h.settled⟩
  obtain ⟨d',hd',hsame,hdone⟩ := h.drafts i d hd
  exact ⟨d',hd',hsame,fun _ => hdone id⟩

/-- A draft whose references change. -/
lemma modify (s : Drafts) {f : Draft → Draft} (hf : ∀ d, (f d).terminator = d.terminator) :
    Extends g (· = id) s { s with drafts := s.drafts.modify id f } := by
  refine ⟨fun i d hd => ?_,fun _ _ h => h,fun _ _ h => .inl h⟩
  rw [Array.getElem?_modify,hd]
  by_cases hi : id = i
  · exact ⟨f d,by simp [hi],hf d,fun hne => absurd hi.symm hne⟩
  · exact ⟨d,by simp [hi],rfl,fun _ => rfl⟩

end Extends

section Walks

variable {room : Nat} {parent : Option NodeId}

/-- What a traversal comes to, place by place. -/
lemma ensures_mapM_forall₂ {α β : Type} {P : α → β → Drafts → Prop} {f : α → Walk β} {l : List α}
    (hf : ∀ a ∈ l, ∀ s', Extends g (fun _ => False) s s' →
      (f a).Ensures s' (fun b s'' => Extends g (fun _ => False) s' s'' ∧ P a b s''))
    (hP : ∀ a b s' s'', P a b s' → Extends g (fun _ => False) s' s'' → P a b s'') :
    (l.mapM f).Ensures s (fun bs s' => Extends g (fun _ => False) s s' ∧
      List.Forall₂ (fun a b => P a b s') l bs) := by
  induction l generalizing s with
  | nil => exact Walk.ensures_pure ⟨.refl s,.nil⟩
  | cons a l ih =>
    rw [List.mapM_cons]
    refine (hf a List.mem_cons_self s (.refl s)).bind (fun b s₁ h₁ => ?_)
    refine (ih (fun a ha s' h' => hf a (List.mem_cons_of_mem _ ha) s' (h₁.1.trans h' nofun))).bind
      (fun bs s₂ h₂ => ?_)
    exact Walk.ensures_pure ⟨h₁.1.trans h₂.1 nofun,.cons (hP _ _ _ _ h₁.2 h₂.1) h₂.2⟩

/-- A walk leaves a mode at a place where its parent finds it: at one that it had, or at the next. -/
structure Places (g : Grammar) (s : Drafts) (key : Origin × Option NodeId) (id : NodeId) (s' : Drafts) :
    Prop where
  grows : Extends g (fun _ => False) s s'
  found : s'.places.lookup key = some id
  next : s.places.lookup key = some id ∨ id = s.drafts.size

lemma places_of_lookup {key : Origin × Option NodeId} (h : s.places.lookup key = some id) :
    Places g s key id s :=
  ⟨.refl s,h,.inl h⟩

lemma placeChild_places {placeMode : Origin → Mode → Walk NodeId} {child : Child}
    (hplace : ∀ origin m s', origin ≠ .root → origin.mode? g = some m → Extends g (fun _ => False) s s' →
      (placeMode origin m).Ensures s' (Places g s' (keyOf g origin m (some id)))) :
    (placeChild g placeMode id child).Ensures s (fun ids s' =>
      Extends g (fun _ => False) s s' ∧ PlacesChild g s' id child ids) := by
  cases child with
  | self => exact Walk.ensures_pure ⟨.refl s,rfl⟩
  | mode child =>
    refine (Walk.ensures_lift _).bind (fun found s₁ h => ?_)
    obtain ⟨hfound,rfl⟩ := h
    refine (ensures_mapM_forall₂ (P := fun o i s' => s'.places.lookup (keyOf g o.1 o.2 (some id)) = some i)
      (fun o ho s' h => (hplace o.1 o.2 s' (occurrences_origin hfound o ho)
        (occurrences_mode hfound o ho) h).mono (fun _ _ hi => ⟨hi.grows,hi.found⟩))
      (fun o i _ _ hi h => h.places (keyOf g o.1 o.2 (some id)) i hi)).mono (fun ids s' h => ⟨h.1,found,hfound,h.2⟩)

/-- A mode that gets a place gets the next one. -/
lemma addDraft_ensures_eq (key : Origin × Option NodeId) (d : Draft) :
    (addDraft key d).Ensures s (fun id s' => id = s.drafts.size ∧
      s' = { drafts := s.drafts.push d, places := (key,id) :: s.places }) := by
  refine Walk.ensures_get.bind (fun s₁ s₂ h => ?_)
  rw [h.1,h.2]
  exact (Walk.ensures_set (Q := fun _ s' => s' =
    { drafts := s.drafts.push d, places := (key,s.drafts.size) :: s.places }) rfl).bind
      (fun _ s' h => Walk.ensures_pure ⟨rfl,h⟩)

/-- A place that is new, for a draft that is finished once the walk has come so far, extends the
drafts that there were before. -/
lemma extends_of_push {key : Origin × Option NodeId} {d : Draft} (hkey : s.places.lookup key = none)
    (h : Extends g (· = s.drafts.size)
      { drafts := s.drafts.push d, places := (key,s.drafts.size) :: s.places } s')
    (hsettled : Settled g s' key s.drafts.size) : Extends g (fun _ => False) s s' := by
  have hlt : ∀ i d', s.drafts[i]? = some d' → i < s.drafts.size := fun i d' hd' =>
    (Array.getElem?_eq_some_iff.mp hd').1
  have hcons : ∀ key' i, s.places.lookup key' = some i → ((key,s.drafts.size) :: s.places).lookup key' = some i := by
    intro key' i hi
    rw [List.lookup_cons]
    split
    · rename_i heq
      rw [beq_iff_eq.mp heq,hkey] at hi
      cases hi
    · exact hi
  refine ⟨fun i d' hd' => ?_,fun key' i hi => h.places key' i (hcons key' i hi),fun key' i hi => ?_⟩
  · have hi := hlt i d' hd'
    refine ⟨d',h.draft ?_ hi.ne,rfl,fun _ => rfl⟩
    rw [Array.getElem?_push_lt hi]
    exact (Array.getElem?_eq_getElem hi).symm.trans hd'
  · rcases h.settled key' i hi with hi | ⟨hnew,hi⟩
    · rw [List.lookup_cons] at hi
      split at hi
      · rename_i heq
        cases hi
        rw [beq_iff_eq.mp heq]
        exact .inr ⟨Nat.le_refl _,hsettled⟩
      · exact .inl hi
    · rw [Array.size_push] at hnew
      exact .inr ⟨Nat.le_of_succ_le hnew,hi⟩

lemma changeDraft_extends {f : Draft → Draft} (hf : ∀ d, (f d).terminator = d.terminator) {d : Draft}
    (hd : s.drafts[id]? = some d) : (changeDraft id f).Ensures s (fun _ s' =>
      Extends g (· = id) s s' ∧ s'.places = s.places ∧ s'.drafts[id]? = some (f d)) :=
  Walk.ensures_modify ⟨.modify s hf,rfl,by rw [Array.getElem?_modify,if_pos rfl,hd]; rfl⟩

lemma placeNext_places (parent : Option NodeId) {placeMode : Origin → Mode → Walk NodeId} {next : Option ModeId}
    (hplace : ∀ n m, next = some n → g.mode? n = some m →
      (placeMode (.table n) m).Ensures s (Places g s (keyOf g (.table n) m parent)))
    {d : Draft} (hd : s.drafts[id]? = some d) (hnone : d.starts = none) :
    (placeNext g placeMode id next).Ensures s (fun _ s' => Extends g (· = id) s s' ∧
      ∃ starts, s'.drafts[id]? = some { d with starts } ∧ PlacesNext g s' parent next starts) := by
  cases next with
  | none =>
    refine Walk.ensures_pure ⟨.refl s,none,?_,rfl⟩
    rw [hd,← hnone]
  | some n =>
    refine (Walk.ensures_lift _).bind (fun m s₁ h => ?_)
    rw [h.2]
    have hm := tableMode_eq_ok.mp h.1
    refine (hplace n m rfl hm).bind (fun node s₂ hnode => ?_)
    refine (changeDraft_extends (f := fun d => { d with starts := some node }) (fun _ => rfl)
      (hnode.grows.draft hd not_false)).mono (fun _ s₃ h => ⟨hnode.grows.weaken.trans h.1 ?_,_,h.2.2,m,node,hm,rfl,?_⟩)
    · rintro i rfl
      exact (Array.getElem?_eq_some_iff.mp hd).1
    · rw [h.2.1]
      exact hnode.found

/-- What follows a mode depends on a parent only if the mode does, so that it is found below the parent
that the mode's own place is kept under. -/
lemma PlacesNext.keyOf {starts : Option NodeId} (h : PlacesNext g s parent m.starts starts) :
    PlacesNext g s (keyOf g origin m parent).2 m.starts starts := by
  cases hn : m.starts with
  | none =>
    rw [hn] at h
    exact h
  | some n =>
    rw [hn] at h
    obtain ⟨next,i,hnext,hi,hplace⟩ := h
    refine ⟨next,i,hnext,hi,?_⟩
    by_cases hdep : g.dependsOnParent next = true
    · have hm : g.dependsOnParent m = true :=
        Grammar.dependsOnParent_iff.mpr (.inr ⟨next,by rw [Grammar.next?,hn]; exact hnext,hdep⟩)
      rw [Assembly.keyOf,Assembly.keyOf,if_pos hm]
      exact hplace
    · rw [Assembly.keyOf,if_neg hdep]
      rw [Assembly.keyOf,if_neg hdep] at hplace
      exact hplace

/-- A draft with all its references is finished, if its parent still ends as it did. -/
lemma settled_of_finished (hmode : origin.mode? g = some m) (hroot : origin = .root ↔ parent = none)
    {terminator : NodeId → String}
    (hparent : ∀ p, parent = some p → ∃ d, s.drafts[p]? = some d ∧ d.terminator = terminator p)
    {groups : List (List NodeId)} {starts : Option NodeId}
    (hdraft : s.drafts[id]? =
      some { Draft.of m (parent.map terminator) with children := groups.flatten, starts })
    (hgroups : List.Forall₂ (PlacesChild g s id) (m.contains.getD []) groups)
    (hstarts : PlacesNext g s parent (parent.bind fun _ => m.starts) starts) :
    Settled g s (keyOf g origin m parent) id := by
  have hnext : PlacesNext g s (keyOf g origin m parent).2
      ((parent.map terminator).bind fun _ => m.starts) starts := by
    cases parent with
    | none => exact hstarts
    | some p => exact PlacesNext.keyOf hstarts
  refine ⟨m,_,_,hmode,hdraft,rfl,hroot.trans Option.map_eq_none_iff.symm,fun hends t ht => ?_,
    ⟨groups,rfl,hgroups⟩,hnext⟩
  obtain ⟨p,hp,rfl⟩ := Option.map_eq_some_iff.mp ht
  obtain ⟨d,hd,hterminator⟩ := hparent p hp
  refine ⟨p,d,?_,hd,hterminator⟩
  rw [keyOf,if_pos (Grammar.dependsOnParent_iff.mpr (.inl hends)),hp]

/-- Once a draft has its place, the walk gives it references: to what its mode contains, placed below
it, and to what follows its mode, placed below its own parent. -/
lemma references_places (parent : Option NodeId) {placeBelow placeBeside : Origin → Mode → Walk NodeId} {next : Option ModeId}
    {d : Draft} (hd : s.drafts[id]? = some d) (hnone : d.starts = none)
    (hbelow : ∀ origin m s', origin ≠ .root → origin.mode? g = some m → s.drafts.size ≤ s'.drafts.size →
      (placeBelow origin m).Ensures s' (Places g s' (keyOf g origin m (some id))))
    (hbeside : ∀ n m s', next = some n → g.mode? n = some m → s.drafts.size ≤ s'.drafts.size →
      (placeBeside (.table n) m).Ensures s' (Places g s' (keyOf g (.table n) m parent))) :
    (do checkTop m parent
        let children ← (m.contains.getD []).mapM (placeChild g placeBelow id)
        changeDraft id ({ · with children := children.flatten })
        placeNext g placeBeside id next
        return id : Walk NodeId).Ensures s (fun id' s' => id' = id ∧ Extends g (· = id) s s' ∧
      ∃ groups starts, s'.drafts[id]? = some { d with children := groups.flatten, starts } ∧
        List.Forall₂ (PlacesChild g s' id) (m.contains.getD []) groups ∧
        PlacesNext g s' parent next starts) := by
  have hlt : id < s.drafts.size := (Array.getElem?_eq_some_iff.mp hd).1
  refine Walk.Ensures.bind (Q := fun _ s' => s' = s) ?_ (fun _ s₁ h => ?_)
  · rw [checkTop]
    split
    · exact Walk.ensures_throw _
    · exact Walk.ensures_pure rfl
  rw [h]
  refine (ensures_mapM_forall₂ (P := fun child ids s' => PlacesChild g s' id child ids)
    (fun child _ s' h' => placeChild_places (fun origin m s'' horigin hmode h'' =>
      hbelow origin m s'' horigin hmode (Nat.le_trans h'.size_le h''.size_le)))
    (fun _ _ _ _ hchild h => hchild.mono h.places)).bind (fun groups s₂ h₂ => ?_)
  refine (changeDraft_extends (g := g) (f := fun d => { d with children := groups.flatten }) (fun _ => rfl)
    (h₂.1.draft hd not_false)).bind (fun _ s₃ h₃ => ?_)
  have hsofar : Extends g (· = id) s s₃ := h₂.1.weaken.trans h₃.1 (fun _ h => h ▸ hlt)
  refine (placeNext_places parent (fun n m hn hm => hbeside n m s₃ hn hm hsofar.size_le) h₃.2.2 hnone).bind
    (fun _ s₄ h₄ => Walk.ensures_pure ?_)
  obtain ⟨hlater,starts,hfinished,hstarts⟩ := h₄
  have hlt₂ : ∀ i, i = id → i < s₂.drafts.size := fun _ h => h ▸ Nat.lt_of_lt_of_le hlt h₂.1.size_le
  exact ⟨rfl,hsofar.trans hlater (fun _ h => h ▸ hlt),groups,starts,hfinished,
    h₂.2.imp (fun _ _ hchild => hchild.mono (h₃.1.trans hlater hlt₂).places),hstarts⟩

/-- Placing a mode leaves it at a settled place. The induction is on the room for nested modes; a place
that is found keeps what was ensured when it was given. -/
lemma place_places (hmode : origin.mode? g = some m) (hroot : origin = .root ↔ parent = none)
    (hparent : ∀ p, parent = some p → p < s.drafts.size) :
    (place g g.parentDependencies room origin m parent).Ensures s (Places g s (keyOf g origin m parent)) := by
  induction room generalizing origin m parent s with
  | zero =>
    rw [place,keyOf_eq hmode hroot]
    refine Walk.ensures_get.bind (fun s₁ s₂ h => ?_)
    rw [h.1,h.2]
    split
    · exact Walk.ensures_pure (places_of_lookup ‹_›)
    · exact Walk.ensures_throw _
  | succ room ih =>
    rw [place,keyOf_eq hmode hroot]
    refine Walk.ensures_get.bind (fun s₁ s₂ h => ?_)
    rw [h.1,h.2]
    split
    · exact Walk.ensures_pure (places_of_lookup ‹_›)
    rename_i hnew
    refine (addDraft_ensures_eq _ _).bind (fun id s₁ h₁ => ?_)
    obtain ⟨rfl,h₁⟩ := h₁
    generalize hd : Draft.of m _ = d at h₁
    have hdraft : s₁.drafts[s.drafts.size]? = some d := by
      rw [h₁]
      exact Array.getElem?_push_size
    have hsize : s₁.drafts.size = s.drafts.size + 1 := by rw [h₁,Array.size_push]
    refine (references_places parent hdraft ?_ (fun origin m s' horigin hmode hle => ?_)
      (fun n m' s' hn hm' hle => ?_)).mono (fun id s' h => ?_)
    · rw [← hd]
      cases parent <;> rfl
    · refine ih hmode ⟨fun h => absurd h horigin,fun h => absurd h (Option.some_ne_none _)⟩ (fun p hp => ?_)
      cases hp
      exact Nat.lt_of_succ_le (hsize.symm.le.trans hle)
    · refine ih hm' ⟨(by cases ·),fun h => ?_⟩ (fun p hp => ?_)
      · rw [h] at hn
        cases hn
      · exact Nat.lt_of_lt_of_le (hparent p hp) (Nat.le_of_succ_le (hsize.symm.le.trans hle))
    obtain ⟨rfl,hall,groups,starts,hfinished,hgroups,hstarts⟩ := h
    -- the parent's terminator is the one that was read when the draft was made
    have hkept : ∀ p, parent = some p → ∃ d, s'.drafts[p]? = some d ∧
        d.terminator = (s.drafts.getD p default).terminator := by
      intro p hp
      have hp := hparent p hp
      obtain ⟨d,hd,hterminator,-⟩ := hall.drafts p s.drafts[p] (by rw [h₁,Array.getElem?_push_lt hp])
      refine ⟨d,hd,?_⟩
      rw [hterminator,Array.getD_eq_getD_getElem?,Array.getElem?_eq_getElem hp]
      rfl
    have hsettled : Settled g s' (keyOf g origin m parent) s.drafts.size :=
      settled_of_finished hmode hroot hkept (hd ▸ hfinished) hgroups hstarts
    refine ⟨extends_of_push (Option.eq_none_iff_forall_ne_some.mpr hnew) (h₁ ▸ hall) hsettled,
      hall.places _ _ ?_,.inr rfl⟩
    rw [h₁,List.lookup_cons_self]

end Walks

/-- The drafts of all modes that the top mode reaches, with their places. -/
def walk (g : Grammar) : Except GrammarError Drafts := do
  let (_,s) ← (place g g.parentDependencies (maxNesting + 1) .root g.root none).run {}
  return s

lemma walk_eq_ok : walk g = .ok s ↔ ∃ id,
    (place g g.parentDependencies (maxNesting + 1) .root g.root none).run {} = .ok (id,s) := by
  rw [walk,except_bind_eq_ok]
  constructor
  · rintro ⟨⟨id,s'⟩,hrun,h⟩
    obtain rfl := Except.ok.inj h
    exact ⟨id,hrun⟩
  · rintro ⟨id,hrun⟩
    exact ⟨_,hrun,rfl⟩

lemma draftAll_eq_ok {drafts : Array Draft} :
    draftAll g = .ok drafts ↔ ∃ s, walk g = .ok s ∧ s.drafts = drafts := by
  simp only [walk_eq_ok]
  rw [draftAll,except_bind_eq_ok]
  constructor
  · rintro ⟨⟨id,s⟩,hrun,h⟩
    exact ⟨s,⟨id,hrun⟩,Except.ok.inj h⟩
  · rintro ⟨s,⟨id,hrun⟩,rfl⟩
    exact ⟨_,hrun,rfl⟩

/-- Whatever the walk has given a place is settled, and so is the place of the top mode. -/
theorem walk_settled (h : walk g = .ok s) : s.places.lookup (.root,none) = some rootNode ∧
    ∀ key i, s.places.lookup key = some i → Settled g s key i := by
  obtain ⟨id,hrun⟩ := walk_eq_ok.mp h
  have hplace : (place g g.parentDependencies (maxNesting + 1) .root g.root none).Ensures {}
      (Places g {} (keyOf g .root g.root none)) := place_places rfl (by simp) (fun p hp => by cases hp)
  have hroot := hplace _ _ hrun
  refine ⟨?_,fun key i hi => ?_⟩
  · have hfound := hroot.found
    rw [keyOf,ite_self,hroot.next.resolve_left (fun h => by cases h)] at hfound
    exact hfound
  · rcases hroot.grows.settled key i hi with hi | ⟨-,hi⟩
    · cases hi
    · exact hi

/-- Whatever is found among the drafts of a grammar is settled, and so is the place of the top mode. -/
theorem draftAll_settled {drafts : Array Draft} (h : draftAll g = .ok drafts) :
    ∃ s : Drafts, s.drafts = drafts ∧ s.places.lookup (.root,none) = some rootNode ∧
      ∀ key i, s.places.lookup key = some i → Settled g s key i := by
  obtain ⟨s,hs,hdrafts⟩ := draftAll_eq_ok.mp h
  exact ⟨s,hdrafts,walk_settled hs⟩

end Highlight.Assembly
