import Highlight.Assembly.Draft
import Mathlib.Tactic.Lemma

/-!
What the walk of a mode graph ensures of the drafts it leaves: every place that they name is the
place of a draft, and none of them is the place of the top mode.
-/
namespace Highlight.Assembly

namespace Walk

variable {α β : Type} {s : Drafts} {Q : α → Drafts → Prop}

/-- If a walk from `s` succeeds, it ends as `Q` says. -/
def Ensures (x : Walk α) (s : Drafts) (Q : α → Drafts → Prop) : Prop :=
  ∀ a s', x.run s = .ok (a,s') → Q a s'

lemma Ensures.mono {x : Walk α} {Q' : α → Drafts → Prop} (h : x.Ensures s Q)
    (hQ : ∀ a s', Q a s' → Q' a s') : x.Ensures s Q' :=
  fun _ _ hrun => hQ _ _ (h _ _ hrun)

lemma ensures_pure {a : α} (h : Q a s) : (pure a : Walk α).Ensures s Q := by
  intro _ _ hrun
  cases hrun
  exact h

lemma ensures_throw (e : GrammarError) : (throw e : Walk α).Ensures s Q := by
  intro _ _ hrun
  cases hrun

lemma Ensures.bind {x : Walk α} {f : α → Walk β} {Q' : β → Drafts → Prop} (hx : x.Ensures s Q)
    (hf : ∀ a s', Q a s' → (f a).Ensures s' Q') : (x >>= f).Ensures s Q' := by
  intro b s' hrun
  rw [StateT.run_bind] at hrun
  cases hfirst : x.run s with
  | error e =>
    rw [hfirst] at hrun
    cases hrun
  | ok p =>
    rw [hfirst] at hrun
    exact hf _ _ (hx _ _ hfirst) _ _ hrun

lemma ensures_set {Q : Unit → Drafts → Prop} {s₁ : Drafts} (h : Q () s₁) :
    (set s₁ : Walk Unit).Ensures s Q := by
  intro _ _ hrun
  cases hrun
  exact h

lemma ensures_modify {Q : Unit → Drafts → Prop} {f : Drafts → Drafts} (h : Q () (f s)) :
    (modify f : Walk Unit).Ensures s Q := by
  intro _ _ hrun
  cases hrun
  exact h

lemma ensures_get : (get : Walk Drafts).Ensures s (fun s₁ s' => s₁ = s ∧ s' = s) := by
  intro _ _ hrun
  cases hrun
  exact ⟨rfl,rfl⟩

lemma ensures_lift (x : Except GrammarError α) :
    (liftM x : Walk α).Ensures s (fun a s' => x = .ok a ∧ s' = s) := by
  intro a s' hrun
  cases x with
  | error e => cases hrun
  | ok a =>
    cases hrun
    exact ⟨rfl,rfl⟩

/-- What each part of a traversal preserves, and what it gives, if that stays true. -/
lemma ensures_mapM {I : Drafts → Prop} {P : β → Drafts → Prop} {f : α → Walk β} {l : List α}
    (hf : ∀ a ∈ l, ∀ s, I s → (f a).Ensures s (fun b s' =>
      I s' ∧ s.drafts.size ≤ s'.drafts.size ∧ P b s'))
    (hP : ∀ b s s', P b s → s.drafts.size ≤ s'.drafts.size → P b s') (hs : I s) :
    (l.mapM f).Ensures s (fun bs s' =>
      I s' ∧ s.drafts.size ≤ s'.drafts.size ∧ ∀ b ∈ bs, P b s') := by
  induction l generalizing s with
  | nil => exact ensures_pure ⟨hs,Nat.le_refl _,nofun⟩
  | cons a l ih =>
    rw [List.mapM_cons]
    refine (hf a List.mem_cons_self s hs).bind (fun b s₁ h₁ => ?_)
    refine (ih (fun a ha => hf a (List.mem_cons_of_mem _ ha)) h₁.1).bind (fun bs s₂ h₂ => ?_)
    refine ensures_pure ⟨h₂.1,Nat.le_trans h₁.2.1 h₂.2.1,fun b' hb' => ?_⟩
    rcases List.mem_cons.mp hb' with rfl | hb'
    · exact hP _ _ _ h₁.2.2 h₂.2.1
    · exact h₂.2.2 b' hb'

end Walk

/-- The place of a node other than the top mode, among so many. -/
def IsInner (size : Nat) (id : NodeId) : Prop := id ≠ rootNode ∧ id < size

lemma IsInner.mono {size size' : Nat} {id : NodeId} (h : IsInner size id) (hle : size ≤ size') :
    IsInner size' id :=
  ⟨h.1,Nat.lt_of_lt_of_le h.2 hle⟩

/-- A draft that refers to places among so many, and not to the top mode. -/
structure Draft.RefersWithin (d : Draft) (size : Nat) : Prop where
  children : ∀ id ∈ d.children, IsInner size id
  starts : ∀ id, d.starts = some id → IsInner size id

lemma Draft.RefersWithin.mono {d : Draft} {size size' : Nat} (h : d.RefersWithin size)
    (hle : size ≤ size') : d.RefersWithin size' :=
  ⟨fun id hid => (h.children id hid).mono hle,fun id hid => (h.starts id hid).mono hle⟩

/-- The top mode has no begin, no end and nothing that follows it. -/
structure Draft.IsTop (d : Draft) : Prop where
  beginPattern : d.beginPattern = none
  endPattern : d.endPattern = none
  terminator : d.terminator = ""
  starts : d.starts = none

structure Drafts.WellFormed (s : Drafts) : Prop where
  refers : ∀ d ∈ s.drafts, d.RefersWithin s.drafts.size
  places : ∀ entry ∈ s.places, entry.1.1 ≠ .root → IsInner s.drafts.size entry.2
  top : ∀ d, s.drafts[rootNode]? = some d → d.IsTop

namespace Drafts.WellFormed

variable {s : Drafts} {d : Draft}

lemma empty : ({} : Drafts).WellFormed := ⟨nofun,nofun,nofun⟩

/-- A new draft at the end, without references yet. -/
lemma push (h : s.WellFormed) (hd : d.RefersWithin 0) {key : Origin × Option NodeId}
    (hkey : key.1 ≠ .root → s.drafts.size ≠ 0) (htop : s.drafts.size = 0 → d.IsTop) :
    ({ drafts := s.drafts.push d, places := (key,s.drafts.size) :: s.places } : Drafts).WellFormed := by
  have hsize : (s.drafts.push d).size = s.drafts.size + 1 := Array.size_push d
  refine ⟨fun d' hd' => ?_,fun entry hentry horigin => ?_,fun d' hd' => ?_⟩
  · rw [hsize]
    rcases Array.mem_push.mp hd' with hd' | rfl
    · exact (h.refers d' hd').mono (Nat.le_succ _)
    · exact hd.mono (Nat.zero_le _)
  · rw [hsize]
    rcases List.mem_cons.mp hentry with rfl | hentry
    · exact ⟨hkey horigin,Nat.lt_succ_self _⟩
    · exact (h.places entry hentry horigin).mono (Nat.le_succ _)
  · rw [Array.getElem?_push] at hd'
    split at hd'
    · cases hd'
      exact htop (Eq.symm ‹_›)
    · exact h.top d' hd'

/-- A draft that is given references to places there are. -/
lemma modify (h : s.WellFormed) {id : NodeId} {f : Draft → Draft}
    (hf : ∀ d, d.RefersWithin s.drafts.size → (f d).RefersWithin s.drafts.size)
    (htop : id = rootNode → ∀ d : Draft, d.IsTop → (f d).IsTop) :
    ({ s with drafts := s.drafts.modify id f } : Drafts).WellFormed := by
  refine ⟨fun d hd => ?_,?_,fun d hd => ?_⟩
  · rw [Array.size_modify]
    obtain ⟨i,hi,rfl⟩ := Array.mem_iff_getElem.mp hd
    rw [Array.getElem_modify]
    split
    · exact hf _ (h.refers _ (Array.getElem_mem _))
    · exact h.refers _ (Array.getElem_mem _)
  · intro entry hentry horigin
    rw [Array.size_modify]
    exact h.places entry hentry horigin
  · rw [Array.getElem?_modify] at hd
    split at hd
    · obtain ⟨d',hd',rfl⟩ := Option.map_eq_some_iff.mp hd
      exact htop ‹_› d' (h.top d' hd')
    · exact h.top d hd

end Drafts.WellFormed

lemma Draft.refersWithin_of (m : Mode) (parent : Option String) (size : Nat) :
    (Draft.of m parent).RefersWithin size := by
  cases parent with
  | none => exact ⟨nofun,nofun⟩
  | some parent => exact ⟨nofun,nofun⟩

lemma occurrences_origin {g : Grammar} {id : ModeId} {found : List (Origin × Mode)}
    (h : occurrences g id = .ok found) : ∀ o ∈ found, o.1 ≠ .root := by
  intro o ho
  rw [occurrences] at h
  cases hm : tableMode g id with
  | error e =>
    rw [hm] at h
    cases h
  | ok m =>
    rw [hm] at h
    simp only [bind,Except.bind] at h
    split at h
    · cases h
      rw [List.mem_singleton.mp ho]
      exact nofun
    · cases h
      obtain ⟨i,hi,rfl⟩ := List.mem_mapIdx.mp ho
      exact nofun

/-- The top mode is placed where no draft is there yet, and any other mode below a parent. -/
structure Placeable (origin : Origin) (parent : Option NodeId) (s : Drafts) : Prop where
  wellFormed : s.WellFormed
  origin : origin = .root ↔ parent = none
  drafts : s.drafts.size = 0 ↔ parent = none
  places : parent = none → s.places = []

/-- A walk keeps the drafts that there are, and gives places other than that of the top mode. -/
def Grows (s : Drafts) (ids : List NodeId) (s' : Drafts) : Prop :=
  s'.WellFormed ∧ s.drafts.size ≤ s'.drafts.size ∧ ∀ id ∈ ids, IsInner s'.drafts.size id

lemma placeChild_ensures {g : Grammar} {placeMode : Origin → Mode → Walk NodeId} {id : NodeId}
    {s : Drafts} {child : Child} (hs : s.WellFormed) (hself : child = .self → IsInner s.drafts.size id)
    (hplace : ∀ origin m (s' : Drafts), origin ≠ .root → s'.WellFormed →
      s.drafts.size ≤ s'.drafts.size → (placeMode origin m).Ensures s' (fun id => Grows s' [id])) :
    (placeChild g placeMode id child).Ensures s (Grows s) := by
  cases child with
  | self =>
    refine Walk.ensures_pure ⟨hs,Nat.le_refl _,fun id hid => ?_⟩
    rw [List.mem_singleton.mp hid]
    exact hself rfl
  | mode child =>
    refine (Walk.ensures_lift _).bind (fun found s₁ h => ?_)
    obtain ⟨hfound,rfl⟩ := h
    refine (Walk.ensures_mapM (I := fun s' => s'.WellFormed ∧ s₁.drafts.size ≤ s'.drafts.size)
      (P := fun id s' => IsInner s'.drafts.size id) (fun o ho s' hs' => ?_)
      (fun _ _ _ h hle => h.mono hle) ⟨hs,Nat.le_refl _⟩).mono (fun ids s' h => ⟨h.1.1,h.2.1,h.2.2⟩)
    refine (hplace o.1 o.2 s' (occurrences_origin hfound o ho) hs'.1 hs'.2).mono (fun id s'' h => ?_)
    exact ⟨⟨h.1,Nat.le_trans hs'.2 h.2.1⟩,h.2.1,h.2.2 id (List.mem_singleton_self id)⟩

/-- A place that was given earlier. -/
lemma grows_of_lookup {origin : Origin} {parent : Option NodeId} {s : Drafts}
    (hs : Placeable origin parent s) {owner : Option NodeId} {id : NodeId}
    (h : s.places.lookup (origin,owner) = some id) :
    Grows s (if parent.isSome then [id] else []) s ∧ s.drafts.size ≠ 0 := by
  obtain ⟨before,after,hsplit,-⟩ := List.lookup_eq_some_iff.mp h
  cases parent with
  | none =>
    rw [hs.places rfl] at h
    cases h
  | some p =>
    refine ⟨⟨hs.wellFormed,Nat.le_refl _,fun id' hid => ?_⟩,fun h => nomatch hs.drafts.mp h⟩
    rw [List.mem_singleton.mp hid]
    refine hs.wellFormed.places ((origin,owner),id) ?_ (fun h => nomatch hs.origin.mp h)
    rw [hsplit]
    exact List.mem_append_right _ List.mem_cons_self

/-- A mode that gets a place of its own. -/
lemma addDraft_ensures {origin : Origin} {parent owner : Option NodeId} {s : Drafts}
    (hs : Placeable origin parent s) (m : Mode) (f : NodeId → String) :
    (addDraft (origin,owner) (Draft.of m (parent.map f))).Ensures s
      (fun id s' => s'.WellFormed ∧ s'.drafts.size = s.drafts.size + 1 ∧ id = s.drafts.size) := by
  refine Walk.ensures_get.bind (fun s₁ s₂ h => ?_)
  obtain ⟨h₁,h₂⟩ := h
  rw [h₁,h₂]
  refine (Walk.ensures_set (Q := fun _ s' => s'.WellFormed ∧ s'.drafts.size = s.drafts.size + 1)
    ⟨hs.wellFormed.push (Draft.refersWithin_of m _ 0) (fun horigin hsize => ?_) (fun hsize => ?_),
      Array.size_push _⟩).bind (fun _ s' h => Walk.ensures_pure ⟨h.1,h.2,rfl⟩)
  · exact horigin (hs.origin.mpr (hs.drafts.mp hsize))
  · rw [hs.drafts.mp hsize]
    exact ⟨rfl,rfl,rfl,rfl⟩

lemma changeDraft_ensures {s : Drafts} (hs : s.WellFormed) {id : NodeId} {f : Draft → Draft}
    (hf : ∀ d, d.RefersWithin s.drafts.size → (f d).RefersWithin s.drafts.size)
    (htop : id = rootNode → ∀ d : Draft, d.IsTop → (f d).IsTop) :
    (changeDraft id f).Ensures s (fun _ s' => s'.WellFormed ∧ s'.drafts.size = s.drafts.size) :=
  Walk.ensures_modify ⟨hs.modify hf htop,Array.size_modify⟩

lemma placeNext_ensures {g : Grammar} {placeMode : Origin → Mode → Walk NodeId} {id : NodeId}
    {s : Drafts} {next : Option ModeId} (hs : s.WellFormed) (hid : next.isSome → id ≠ rootNode)
    (hplace : next.isSome → ∀ origin m, origin ≠ .root → (placeMode origin m).Ensures s (fun id => Grows s [id])) :
    (placeNext g placeMode id next).Ensures s (fun _ => Grows s []) := by
  cases next with
  | none => exact Walk.ensures_pure ⟨hs,Nat.le_refl _,nofun⟩
  | some next =>
    refine (Walk.ensures_lift _).bind (fun m s₁ h => ?_)
    rw [h.2]
    refine (hplace rfl (.table next) m nofun).bind (fun node s₂ hnode => ?_)
    refine (changeDraft_ensures (f := fun d => { d with starts := some node }) hnode.1
      (fun d hd => ⟨hd.children,fun id hid => ?_⟩) (fun h => absurd h (hid rfl))).mono
      (fun _ s₃ h => ⟨h.1,h.2 ▸ hnode.2.1,nofun⟩)
    obtain rfl := Option.some.inj hid
    exact hnode.2.2 node (List.mem_singleton_self node)

lemma place_ensures (g : Grammar) (dependencies : Array Bool) (room : Nat) {origin : Origin} (m : Mode)
    {parent : Option NodeId} {s : Drafts} (hs : Placeable origin parent s) :
    (place g dependencies room origin m parent).Ensures s (fun id s' =>
      Grows s (if parent.isSome then [id] else []) s' ∧ s'.drafts.size ≠ 0) := by
  induction room generalizing origin m parent s with
  | zero =>
    rw [place]
    refine Walk.ensures_get.bind (fun s₁ s₂ h => ?_)
    obtain ⟨h₁,h₂⟩ := h
    rw [h₁,h₂]
    split
    · exact Walk.ensures_pure (grows_of_lookup hs ‹_›)
    · exact Walk.ensures_throw _
  | succ room ih =>
    rw [place]
    refine Walk.ensures_get.bind (fun s₁ s₂ h => ?_)
    obtain ⟨h₁,h₂⟩ := h
    rw [h₁,h₂]
    split
    · exact Walk.ensures_pure (grows_of_lookup hs ‹_›)
    refine (addDraft_ensures hs m _).bind (fun id s₁ h => ?_)
    obtain ⟨hs₁,hsize,hid⟩ := h
    have hnested : ∀ origin m (s' : Drafts), origin ≠ .root → s'.WellFormed →
        s₁.drafts.size ≤ s'.drafts.size →
        ∀ p, (place g dependencies room origin m (some p)).Ensures s' (fun id => Grows s' [id]) := by
      intro origin m s' horigin hs' hle p
      have hplaceable : Placeable origin (some p) s' :=
        ⟨hs',⟨fun h => absurd h horigin,nofun⟩,⟨fun h => by omega,nofun⟩,nofun⟩
      exact (ih m hplaceable).mono (fun _ _ h => h.1)
    -- the place of a mode below a parent is not the first one
    have hinner : parent ≠ none → ∀ size, s₁.drafts.size ≤ size → IsInner size id := by
      intro hparent size hle
      have h0 : s.drafts.size ≠ 0 := fun h => hparent (hs.drafts.mp h)
      rw [hid]
      exact ⟨h0,Nat.lt_of_lt_of_le (hsize ▸ Nat.lt_succ_self _) hle⟩
    refine Walk.Ensures.bind (Q := fun _ s' => s' = s₁ ∧ (.self ∈ m.contains.getD [] → parent ≠ none))
      ?_ (fun _ s₂ h => ?_)
    · rw [checkTop]
      split
      · exact Walk.ensures_throw _
      · rename_i hself
        refine Walk.ensures_pure ⟨rfl,fun hmem hparent => hself ?_⟩
        simp [hparent,hmem]
    obtain ⟨h₂,hself⟩ := h
    rw [h₂]
    refine (Walk.ensures_mapM (I := fun s' => s'.WellFormed ∧ s₁.drafts.size ≤ s'.drafts.size)
      (P := fun ids s' => ∀ id ∈ ids, IsInner s'.drafts.size id) (fun child hchild s' hs' => ?_)
      (fun _ _ _ h hle id hid => (h id hid).mono hle) ⟨hs₁,Nat.le_refl _⟩).bind
      (fun children s₃ h₃ => ?_)
    · refine (placeChild_ensures hs'.1 (fun h => hinner (hself (h ▸ hchild)) _ hs'.2)
        (fun origin m s'' horigin hs'' hle =>
          hnested origin m s'' horigin hs'' (Nat.le_trans hs'.2 hle) id)).mono
        (fun ids s'' h => ⟨⟨h.1,Nat.le_trans hs'.2 h.2.1⟩,h.2.1,h.2.2⟩)
    refine (changeDraft_ensures (f := fun d => { d with children := children.flatten }) h₃.1.1
      (fun d hd => ⟨fun id hid => ?_,hd.starts⟩)
      (fun _ d hd => ⟨hd.beginPattern,hd.endPattern,hd.terminator,hd.starts⟩)).bind (fun _ s₄ h₄ => ?_)
    · obtain ⟨ids,hids,hid⟩ := List.mem_flatten.mp hid
      exact h₃.2.2 ids hids id hid
    have hle : s₁.drafts.size ≤ s₄.drafts.size := h₄.2 ▸ h₃.2.1
    refine (placeNext_ensures h₄.1 (fun hnext => ?_) (fun hnext origin m horigin => ?_)).bind
      (fun _ s₅ h₅ => Walk.ensures_pure ⟨⟨h₅.1,?_,fun id' hid' => ?_⟩,?_⟩)
    · cases parent with
      | none => cases hnext
      | some p => exact (hinner nofun _ hle).1
    · cases parent with
      | none => cases hnext
      | some p => exact hnested origin m s₄ horigin h₄.1 hle p
    · have h := h₅.2.1
      omega
    · cases parent with
      | none => cases hid'
      | some p =>
        rw [List.mem_singleton.mp hid']
        exact hinner nofun _ (Nat.le_trans hle h₅.2.1)
    · have h := h₅.2.1
      omega

/-- The drafts of a grammar refer to places among them, and the first is the top mode's. -/
theorem draftAll_wellFormed {g : Grammar} {drafts : Array Draft} (h : draftAll g = .ok drafts) :
    drafts.size ≠ 0 ∧ (∀ d ∈ drafts, d.RefersWithin drafts.size) ∧
      ∀ d, drafts[rootNode]? = some d → d.IsTop := by
  rw [draftAll] at h
  cases hrun : (place g g.parentDependencies (maxNesting + 1) .root g.root none).run {} with
  | error e =>
    rw [hrun] at h
    cases h
  | ok p =>
    rw [hrun] at h
    cases h
    have hempty : Placeable .root none {} := ⟨.empty,by simp,by simp,fun _ => rfl⟩
    have hplace := place_ensures g g.parentDependencies (maxNesting + 1) g.root hempty _ _ hrun
    exact ⟨hplace.2,hplace.1.1.refers,hplace.1.1.top⟩

end Highlight.Assembly
