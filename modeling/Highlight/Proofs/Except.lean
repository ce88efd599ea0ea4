import Mathlib.Data.List.Forall2
import Mathlib.Tactic.Lemma

/-! Computations that may fail: what a success says of the parts. -/
namespace Highlight

variable {ε α β : Type}

lemma except_bind_eq_ok {x : Except ε α} {f : α → Except ε β} {b : β} :
    x >>= f = .ok b ↔ ∃ a, x = .ok a ∧ f a = .ok b := by
  cases x with
  | error e => exact ⟨nofun,fun ⟨_,h,_⟩ => nomatch h⟩
  | ok a => exact ⟨fun h => ⟨a,rfl,h⟩,fun ⟨_,h,hf⟩ => Except.ok.inj h ▸ hf⟩

lemma except_map_eq_ok {x : Except ε α} {f : α → β} {b : β} :
    f <$> x = .ok b ↔ ∃ a, x = .ok a ∧ f a = b := by
  cases x with
  | error e => exact ⟨nofun,fun ⟨_,h,_⟩ => nomatch h⟩
  | ok a => exact ⟨fun h => ⟨a,rfl,Except.ok.inj h⟩,fun ⟨_,h,hf⟩ => Except.ok.inj h ▸ congrArg _ hf⟩

lemma option_mapM_eq_ok {f : α → Except ε β} {a : Option α} {b : Option β} (h : a.mapM f = .ok b) :
    Option.Rel (fun a b => f a = .ok b) a b := by
  cases a with
  | none =>
    cases h
    exact .none
  | some a =>
    obtain ⟨b,hb,rfl⟩ := except_map_eq_ok.mp h
    exact .some hb

/-- A traversal that succeeds does so at each place. -/
lemma list_mapM_eq_ok {f : α → Except ε β} {as : List α} {bs : List β} (h : as.mapM f = .ok bs) :
    bs.length = as.length ∧ ∀ (i : Nat) a, as[i]? = some a → ∃ b, bs[i]? = some b ∧ f a = .ok b := by
  induction as generalizing bs with
  | nil =>
    cases h
    exact ⟨rfl,nofun⟩
  | cons a as ih =>
    rw [List.mapM_cons,except_bind_eq_ok] at h
    obtain ⟨b,hb,h⟩ := h
    rw [except_bind_eq_ok] at h
    obtain ⟨bs',hbs,h⟩ := h
    cases h
    obtain ⟨hlen,hall⟩ := ih hbs
    refine ⟨by rw [List.length_cons,List.length_cons,hlen],fun i a' ha' => ?_⟩
    cases i with
    | zero =>
      cases ha'
      exact ⟨b,rfl,hb⟩
    | succ i => exact hall i a' ha'

lemma list_mapM_of_forall₂ {f : α → Except ε β} {as : List α} {bs : List β}
    (h : List.Forall₂ (fun a b => f a = .ok b) as bs) : as.mapM f = .ok bs := by
  induction h with
  | nil => rfl
  | cons ha _ ih =>
    rw [List.mapM_cons,ha,ih]
    rfl

/-- A traversal fails as its first place that fails. -/
lemma list_mapM_eq_error {f : α → Except ε β} {before after : List α} {a : α} {e : ε}
    (hbefore : ∀ a ∈ before, ∃ b, f a = .ok b) (ha : f a = .error e) :
    (before ++ a :: after).mapM f = .error e := by
  induction before with
  | nil =>
    rw [List.nil_append,List.mapM_cons,ha]
    rfl
  | cons a' before ih =>
    obtain ⟨b,hb⟩ := hbefore a' List.mem_cons_self
    rw [List.cons_append,List.mapM_cons,hb,ih (fun a ha => hbefore a (List.mem_cons_of_mem _ ha))]
    rfl

lemma exists_of_list_mapM_eq_error {f : α → Except ε β} {as : List α} {e : ε}
    (h : as.mapM f = .error e) : ∃ a ∈ as, f a = .error e := by
  induction as with
  | nil => cases h
  | cons a as ih =>
    rw [List.mapM_cons] at h
    cases ha : f a with
    | error e' =>
      rw [ha] at h
      cases h
      exact ⟨a,List.mem_cons_self,ha⟩
    | ok b =>
      rw [ha] at h
      cases has : as.mapM f with
      | error e' =>
        rw [has] at h
        cases h
        obtain ⟨a',ha',hfails⟩ := ih has
        exact ⟨a',List.mem_cons_of_mem _ ha',hfails⟩
      | ok bs =>
        rw [has] at h
        cases h

/-- A traversal succeeds if each of its places does. -/
lemma exists_list_mapM_eq_ok {f : α → Except ε β} {as : List α} (h : ∀ a ∈ as, ∃ b, f a = .ok b) :
    ∃ bs, as.mapM f = .ok bs := by
  cases hm : as.mapM f with
  | ok bs => exact ⟨bs,rfl⟩
  | error e =>
    obtain ⟨a,ha,hfails⟩ := exists_of_list_mapM_eq_error hm
    obtain ⟨b,hb⟩ := h a ha
    cases hb.symm.trans hfails

/-- A traversal whose places fail alike, if at all, fails as any of them does. -/
lemma list_mapM_eq_error_of_mem {f : α → Except ε β} {as : List α} {e : ε}
    (hfails : ∀ a ∈ as, ∀ e', f a = .error e' → e' = e) {a : α} (ha : a ∈ as) (h : f a = .error e) :
    as.mapM f = .error e := by
  cases hm : as.mapM f with
  | error e' =>
    obtain ⟨a',ha',he'⟩ := exists_of_list_mapM_eq_error hm
    rw [hfails a' ha' e' he']
  | ok bs =>
    obtain ⟨-,hall⟩ := list_mapM_eq_ok hm
    obtain ⟨i,hi⟩ := List.mem_iff_getElem?.mp ha
    obtain ⟨b,-,hb⟩ := hall i a hi
    cases h.symm.trans hb

/-- What commutes with each place of a traversal commutes with the whole. -/
lemma list_mapM_map {f : α → Except ε β} {g : α → α} {k : β → β}
    (hg : ∀ a b, f a = .ok b → f (g a) = .ok (k b)) {as : List α} {bs : List β}
    (h : as.mapM f = .ok bs) : (as.map g).mapM f = .ok (bs.map k) := by
  induction as generalizing bs with
  | nil =>
    cases h
    rfl
  | cons a as ih =>
    rw [List.mapM_cons,except_bind_eq_ok] at h
    obtain ⟨b,hb,h⟩ := h
    rw [except_bind_eq_ok] at h
    obtain ⟨bs',hbs,h⟩ := h
    cases h
    rw [List.map_cons,List.mapM_cons,hg a b hb,ih hbs]
    rfl

lemma array_mapM_eq_ok {f : α → Except ε β} {as : Array α} {bs : Array β} (h : as.mapM f = .ok bs) :
    bs.size = as.size ∧ ∀ (i : Nat) a, as[i]? = some a → ∃ b, bs[i]? = some b ∧ f a = .ok b := by
  have hlist : as.toList.mapM f = .ok bs.toList := by
    rw [← Array.toList_mapM,h]
    rfl
  simpa using list_mapM_eq_ok hlist

lemma except_eq_ok_of_toOption {x : Except ε α} {a : α} (h : x.toOption = some a) : x = .ok a := by
  cases x with
  | error e => cases h
  | ok a' => exact congrArg Except.ok (Option.some.inj h)

/-- A success is seen once the outcome is worked out. -/
lemma exists_eq_ok_of_any {x : Except ε α} {p : α → Bool} (h : x.toOption.any p = true) :
    ∃ a, x = .ok a ∧ p a = true := by
  obtain ⟨a,ha,hp⟩ := (Option.any_eq_true _ _).mp h
  exact ⟨a,except_eq_ok_of_toOption ha,hp⟩

/-- So is that of a computation with a state. -/
lemma exists_ok_of_any {σ : Type} {x : Except ε α × σ} (p : α → Bool)
    (h : x.1.toOption.any p = true) : ∃ a s, x = (.ok a,s) ∧ p a = true := by
  obtain ⟨a,ha,hp⟩ := exists_eq_ok_of_any h
  exact ⟨a,x.2,Prod.ext ha rfl,hp⟩

end Highlight
