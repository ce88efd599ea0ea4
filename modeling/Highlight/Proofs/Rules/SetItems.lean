import Highlight.Proofs.Rules.Escapes

/-!
Sets in brackets are read alike whether or not they are closed under case. It makes a difference to the characters in
them, not to where items end or whether a range is in order.
-/
namespace Highlight.Regex

open List

/-- Items of a set that differ in the characters of a class alone. -/
inductive SetToken.Alike : SetToken → SetToken → Prop
  | raw (c : Char) : Alike (.raw c) (.raw c)
  | fixed {e e' : Escaped} (h : e.Alike e') : Alike (.fixed e) (.fixed e')

abbrev TokensAlike : List SetToken → List SetToken → Prop := Forall₂ SetToken.Alike

lemma SetToken.Alike.item {t t' : SetToken} (h : t.Alike t') : t.item.Alike t'.item := by
  cases h with
  | raw c => exact .char c
  | fixed h => exact h

variable {fold fold' : Bool} {c : Char} {cs rest : List Char} {n d : Nat} {ts ts' us : List SetToken}
  {t t' : SetToken} {r r' : SetReading} {s : CharSet}

/-- A set ends at the same place, and has the same items but for the characters of classes. -/
lemma setTokens_alike (h : setTokens fold n d cs = .ok (ts,rest)) (fold' : Bool) :
    ∃ ts', setTokens fold' n d cs = .ok (ts',rest) ∧ TokensAlike ts ts' := by
  induction n generalizing d cs ts with
  | zero => cases h
  | succ n ih =>
    cases cs with
    | nil => cases h
    | cons c cs =>
      cases d with
      | zero => cases h
      | succ d =>
        -- a token and, from what follows it, those after it
        have hcons : ∀ {t t' : SetToken} {d' : Nat} {cs' : List Char}, t.Alike t' →
            (setTokens fold n d' cs' >>= fun x => pure (t :: x.1,x.2)) = Except.ok (ts,rest) →
              ∃ ts', (setTokens fold' n d' cs' >>= fun x => pure (t' :: x.1,x.2)) = Except.ok (ts',rest) ∧
                TokensAlike ts ts' := by
          intro t t' d' cs' ht h
          obtain ⟨⟨us,v⟩,hus,h⟩ := except_bind_eq_ok.mp h
          obtain ⟨rfl,rfl⟩ := Prod.mk.inj (Except.ok.inj h)
          obtain ⟨us',hus',halike⟩ := ih hus
          rw [hus']
          exact ⟨_,rfl,.cons ht halike⟩
        unfold setTokens at h ⊢
        split at h
        · split at h
          · cases h
          · rename_i e cs
            dsimp only
            split at h
            · cases h
            · rename_i hdigit
              obtain ⟨⟨e',cs'⟩,he,h⟩ := except_bind_eq_ok.mp h
              obtain ⟨e'',he',halike⟩ := readEscape_alike he fold'
              rw [if_neg hdigit,he']
              exact hcons (.fixed halike) h
        · dsimp only
          split at h
          · rename_i hd
            obtain ⟨rfl,rfl⟩ := Prod.mk.inj (Except.ok.inj h)
            rw [if_pos hd]
            exact ⟨_,rfl,.cons (.raw _) .nil⟩
          · rename_i hd
            rw [if_neg hd]
            exact hcons (.raw _) h
        · exact hcons (.raw _) h
        · exact hcons (.raw _) h

/-- The reading of items goes as far where they are alike. -/
def GoesAlike (read read' : SetReading → List SetToken → Except PatternError (CharSet × List SetToken)) : Prop :=
  ∀ (r r' : SetReading) (ts ts' us : List SetToken) (s : CharSet), TokensAlike ts ts' → read r ts = .ok (s,us) →
    ∃ s' us', read' r' ts' = .ok (s',us') ∧ TokensAlike us us'

/-- The raw characters at the start of items, as far as `p` holds of them. -/
lemma takeWhile_alike {p : SetToken → Bool} (hp : ∀ e, p (.fixed e) = false) (h : TokensAlike ts ts') :
    ts.takeWhile p = ts'.takeWhile p := by
  induction h with
  | nil => rfl
  | cons ht _ ih =>
    cases ht with
    | raw c =>
      rw [takeWhile_cons,takeWhile_cons,ih]
    | fixed h =>
      rw [takeWhile_cons_of_neg (by simp [hp]),takeWhile_cons_of_neg (by simp [hp])]

/-- A class with an ASCII name ends at the same place. -/
lemma asciiClassIn?_alike (fold fold' : Bool) (h : TokensAlike ts ts') :
    Option.Rel (fun x x' => TokensAlike x.2 x'.2) (asciiClassIn? fold ts) (asciiClassIn? fold' ts') := by
  unfold asciiClassIn?
  dsimp only
  rw [takeWhile_alike (fun _ => rfl) h]
  generalize takeWhile _ ts' = raws
  have hdrop : TokensAlike (ts.drop raws.length) (ts'.drop raws.length) := forall₂_drop _ h
  generalize ts.drop raws.length = us at hdrop
  generalize ts'.drop raws.length = us' at hdrop
  split
  · rename_i vs
    obtain _ | ⟨ht,hdrop⟩ := hdrop
    obtain _ | ⟨ht',hdrop⟩ := hdrop
    cases ht
    cases ht'
    generalize asciiClass? _ = named?
    cases named? with
    | none => exact .none
    | some s => exact .some hdrop
  · rename_i hother
    split
    · rename_i vs
      obtain _ | ⟨ht,hdrop⟩ := hdrop
      obtain _ | ⟨ht',hdrop⟩ := hdrop
      cases ht
      cases ht'
      exact (hother _ rfl).elim
    · exact .none

/-- A range ends at the same place, and its bounds are in order. -/
lemma readRange_alike (ht : t.Alike t') (h : TokensAlike ts ts') (hr : readRange t ts = .ok (s,us)) :
    ∃ s' us', readRange t' ts' = .ok (s',us') ∧ TokensAlike us us' := by
  have halone : ∀ {s₁ s₂ : CharSet}, (Except.ok (s₁,ts) : Except PatternError (CharSet × List SetToken)) = .ok (s,us) →
      ∃ s' us', (Except.ok (s₂,ts') : Except PatternError (CharSet × List SetToken)) = .ok (s',us') ∧
        TokensAlike us us' := by
    intro s₁ s₂ hr
    obtain ⟨rfl,rfl⟩ := Prod.mk.inj (Except.ok.inj hr)
    exact ⟨s₂,ts',rfl,h⟩
  unfold readRange at hr ⊢
  dsimp only at hr ⊢
  split at hr
  · obtain _ | ⟨ht₁,h₁⟩ := id h
    obtain _ | ⟨ht₂,h₂⟩ := h₁
    cases ht₁
    cases ht₂
    exact halone hr
  · obtain _ | ⟨ht₁,h₁⟩ := id h
    obtain _ | ⟨ht₂,h₂⟩ := h₁
    cases ht₁
    cases ht₂
    exact halone hr
  · rename_i second vs hbracket hhyphen
    obtain _ | ⟨ht₁,h₁⟩ := h
    obtain _ | ⟨ht₂,h₂⟩ := h₁
    cases ht₁
    split
    · rename_i heq
      cases heq
      cases ht₂
      exact (hbracket rfl).elim
    · rename_i heq
      cases heq
      cases ht₂
      exact (hhyphen rfl).elim
    · rename_i heq
      cases heq
      have ha := ht.item
      have hb := ht₂.item
      generalize t.item = a at ha hr
      generalize t'.item = a' at ha
      generalize second.item = b at hb hr
      generalize SetToken.item _ = b' at hb
      cases ha with
      | «class» s s' => cases hr
      | char c =>
        cases hb with
        | «class» s s' => cases hr
        | char d =>
          dsimp only at hr ⊢
          split at hr
          · rename_i hle
            obtain ⟨rfl,rfl⟩ := Prod.mk.inj (Except.ok.inj hr)
            rw [if_pos hle]
            exact ⟨_,_,rfl,h₂⟩
          · cases hr
    · rename_i hother
      exact (hother _ _ rfl).elim
  · rename_i hbracket hhyphen hother
    split
    · obtain _ | ⟨ht₁,h₁⟩ := h
      obtain _ | ⟨ht₂,h₂⟩ := h₁
      cases ht₁
      cases ht₂
      exact (hbracket _ rfl).elim
    · obtain _ | ⟨ht₁,h₁⟩ := h
      obtain _ | ⟨ht₂,h₂⟩ := h₁
      cases ht₁
      cases ht₂
      exact (hhyphen _ rfl).elim
    · obtain _ | ⟨ht₁,h₁⟩ := h
      obtain _ | ⟨ht₂,h₂⟩ := h₁
      cases ht₁
      exact (hother _ _ rfl).elim
    · exact halone hr

lemma leadingItems_alike (h : TokensAlike ts ts') : TokensAlike (leadingItems ts).2 (leadingItems ts').2 := by
  unfold leadingItems
  dsimp only
  rw [takeWhile_alike (fun _ => rfl) h]
  generalize takeWhile _ ts' = hyphens
  have hdrop : TokensAlike (ts.drop hyphens.length) (ts'.drop hyphens.length) := forall₂_drop _ h
  generalize ts.drop hyphens.length = us at hdrop
  generalize ts'.drop hyphens.length = us' at hdrop
  cases hyphens.isEmpty with
  | false => exact hdrop
  | true =>
    rw [if_pos rfl,if_pos rfl]
    split
    · obtain _ | ⟨ht,hrest⟩ := hdrop
      cases ht
      exact hrest
    · rename_i hother
      split
      · obtain _ | ⟨ht,hrest⟩ := hdrop
        cases ht
        exact (hother _ rfl).elim
      · exact hdrop

/-- A set after its opening bracket ends at the same place if its items do. -/
lemma readNested_alike {read read' : SetReading → List SetToken → Except PatternError (CharSet × List SetToken)}
    (hgo : GoesAlike read read') (h : TokensAlike ts ts') (fold' : Bool) (hr : readNested fold read ts = .ok (s,us)) :
    ∃ s' us', readNested fold' read' ts' = .ok (s',us') ∧ TokensAlike us us' := by
  have hitems : ∀ {negated negated' : Bool} {vs vs' : List SetToken}, TokensAlike vs vs' →
      (read (leadingItems vs).1 (leadingItems vs).2 >>= fun x => pure (CharSet.complIf negated (.foldIf fold x.1),x.2)) =
        Except.ok (s,us) →
          ∃ s' us', (read' (leadingItems vs').1 (leadingItems vs').2 >>=
            fun x => pure (CharSet.complIf negated' (.foldIf fold' x.1),x.2)) = Except.ok (s',us') ∧
              TokensAlike us us' := by
    intro negated negated' vs vs' hvs hr
    obtain ⟨⟨s₁,us₁⟩,hread,hr⟩ := except_bind_eq_ok.mp hr
    obtain ⟨-,rfl⟩ := Prod.mk.inj (Except.ok.inj hr)
    obtain ⟨s',us',hread',halike⟩ := hgo _ _ _ _ _ _ (leadingItems_alike hvs) hread
    rw [hread']
    exact ⟨_,us',rfl,halike⟩
  unfold readNested at hr ⊢
  dsimp only at hr ⊢
  split at hr
  · obtain _ | ⟨ht,hrest⟩ := h
    cases ht
    exact hitems hrest hr
  · rename_i hother
    split
    · obtain _ | ⟨ht,hrest⟩ := h
      cases ht
      exact (hother _ rfl).elim
    · exact hitems h hr

section Items

variable (fold n r)

lemma readSetItems_named (ts : List SetToken) : readSetItems fold (n + 1) r (.raw '[' :: .raw ':' :: ts) =
    match asciiClassIn? fold ts with
    | some (s,us) => readSetItems fold n (r.add s) us
    | none => readNested fold (readSetItems fold n) (.raw ':' :: ts) >>= fun x => readSetItems fold n (r.add x.1) x.2 :=
  rfl

lemma readSetItems_nested (h : ∀ us, ts ≠ .raw ':' :: us) : readSetItems fold (n + 1) r (.raw '[' :: ts) =
    readNested fold (readSetItems fold n) ts >>= fun x => readSetItems fold n (r.add x.1) x.2 := by
  rw [readSetItems]
  exact h

lemma readSetItems_raw (hclose : c ≠ ']') (hopen : c ≠ '[') (d : Char) (ts : List SetToken) :
    readSetItems fold (n + 1) r (.raw c :: .raw d :: ts) = (if c = d then SetOp.ofChar? c else none).elim
      (readRange (.raw c) (.raw d :: ts) >>= fun x => readSetItems fold n (r.add x.1) x.2)
      (fun op => readSetItems fold n (r.combine fold op) ts) := by
  rw [readSetItems]
  · cases (if c = d then SetOp.ofChar? c else none) with
    | none => rfl
    | some op => rfl
  · exact hclose
  · exact fun h _ => hopen h
  · exact hopen

lemma readSetItems_range (hclose : t ≠ .raw ']') (hopen : t ≠ .raw '[') (h : ∀ c d us, t = .raw c → ts ≠ .raw d :: us) :
    readSetItems fold (n + 1) r (t :: ts) = readRange t ts >>= fun x => readSetItems fold n (r.add x.1) x.2 := by
  rw [readSetItems]
  · exact hclose
  · exact hopen
  · exact fun _ ht _ => hopen ht
  · exact fun c d us ht => h c d us ht

lemma readSetItems_fixed (e : Escaped) (ts : List SetToken) : readSetItems fold (n + 1) r (.fixed e :: ts) =
    readRange (.fixed e) ts >>= fun x => readSetItems fold n (r.add x.1) x.2 :=
  readSetItems_range fold n r nofun nofun (fun _ _ _ h => nomatch h)

end Items

/-- The items of a set are read up to the same place. -/
lemma readSetItems_alike (fold fold' : Bool) (n : Nat) : GoesAlike (readSetItems fold n) (readSetItems fold' n) := by
  induction n with
  | zero =>
    intro r r' ts ts' us s h hr
    cases hr
  | succ n ih =>
    intro r r' ts ts' us s h hr
    -- what is read next, and then the items after it
    have hthen : ∀ {x x' : Except PatternError (CharSet × List SetToken)},
        (∀ s₁ us₁, x = .ok (s₁,us₁) → ∃ s₁' us₁', x' = .ok (s₁',us₁') ∧ TokensAlike us₁ us₁') →
          (x >>= fun y => readSetItems fold n (r.add y.1) y.2) = .ok (s,us) →
            ∃ s' us', (x' >>= fun y => readSetItems fold' n (r'.add y.1) y.2) = .ok (s',us') ∧ TokensAlike us us' := by
      intro x x' hx hr
      obtain ⟨⟨s₁,us₁⟩,hx₁,hr⟩ := except_bind_eq_ok.mp hr
      obtain ⟨s₁',us₁',rfl,halike⟩ := hx s₁ us₁ hx₁
      exact ih _ _ _ _ _ _ halike hr
    cases h with
    | nil => cases hr
    | @cons t t' vs vs' ht hrest =>
      cases ht with
      | @fixed e e' he =>
        rw [readSetItems_fixed] at hr ⊢
        exact hthen (fun _ _ => readRange_alike (.fixed he) hrest) hr
      | raw c =>
        by_cases hclose : c = ']'
        · subst hclose
          obtain ⟨-,rfl⟩ := Prod.mk.inj (Except.ok.inj hr)
          exact ⟨_,_,rfl,hrest⟩
        by_cases hopen : c = '['
        · subst hopen
          by_cases hcolon : ∃ ws, vs = .raw ':' :: ws
          · obtain ⟨ws,rfl⟩ := hcolon
            obtain _ | ⟨ht',hrest'⟩ := id hrest
            cases ht'
            have hclass := asciiClassIn?_alike fold fold' hrest'
            rw [readSetItems_named] at hr ⊢
            generalize asciiClassIn? fold ws = x at hclass hr
            generalize asciiClassIn? fold' _ = x' at hclass
            cases hclass with
            | none => exact hthen (fun _ _ => readNested_alike ih hrest _) hr
            | some halike => exact ih _ _ _ _ _ _ halike hr
          · have hcolon' : ∀ ws, vs' ≠ .raw ':' :: ws := by
              rintro ws rfl
              obtain _ | ⟨ht',hrest'⟩ := hrest
              cases ht'
              exact hcolon ⟨_,rfl⟩
            rw [readSetItems_nested _ _ _ (fun ws hws => hcolon ⟨ws,hws⟩)] at hr
            rw [readSetItems_nested _ _ _ hcolon']
            exact hthen (fun _ _ => readNested_alike ih hrest _) hr
        · have hc : SetToken.raw c ≠ .raw ']' ∧ SetToken.raw c ≠ .raw '[' :=
            ⟨fun h => hclose (SetToken.raw.inj h),fun h => hopen (SetToken.raw.inj h)⟩
          cases id hrest with
          | nil =>
            rw [readSetItems_range _ _ _ hc.1 hc.2 (fun _ _ _ _ => List.cons_ne_nil _ _ ∘ Eq.symm)] at hr ⊢
            exact hthen (fun _ _ => readRange_alike (.raw c) hrest) hr
          | cons ht' hrest' =>
            cases ht' with
            | fixed he =>
              have hne : ∀ {e : Escaped} {vs : List SetToken} (b d : Char) (us : List SetToken),
                  SetToken.raw c = .raw b → .fixed e :: vs ≠ .raw d :: us := fun _ _ _ _ h => nomatch h
              rw [readSetItems_range _ _ _ hc.1 hc.2 hne] at hr ⊢
              exact hthen (fun _ _ => readRange_alike (.raw c) hrest) hr
            | raw d =>
              rw [readSetItems_raw _ _ _ hclose hopen] at hr ⊢
              generalize (if c = d then SetOp.ofChar? c else none) = op? at hr
              cases op? with
              | none => exact hthen (fun _ _ => readRange_alike (.raw c) hrest) hr
              | some op => exact ih _ _ _ _ _ _ hrest' hr

/-- A set is read up to the same place whether or not it is closed under case. -/
theorem readSet_fold (h : readSet fold cs = .ok (s,rest)) (fold' : Bool) : ∃ s', readSet fold' cs = .ok (s',rest) := by
  unfold readSet at h ⊢
  generalize setStart cs = st at h ⊢
  obtain ⟨start,inside⟩ := st
  obtain ⟨⟨ts,after⟩,htokens,h⟩ := except_bind_eq_ok.mp h
  obtain ⟨⟨s₁,left⟩,hnested,h⟩ := except_bind_eq_ok.mp h
  obtain ⟨ts',htokens',halike⟩ := setTokens_alike htokens fold'
  have hstart : TokensAlike start start := forall₂_same.mpr (fun t _ => by
    cases t with
    | raw c => exact .raw c
    | fixed e => exact .fixed (.refl e))
  have hall : TokensAlike (start ++ ts) (start ++ ts') := rel_append hstart halike
  have hlen : (start ++ ts).length = (start ++ ts').length := hall.length_eq
  obtain ⟨s',left',hnested',hleft⟩ := readNested_alike (readSetItems_alike fold fold' _) hall fold' hnested
  dsimp only at h hnested' ⊢
  rw [hlen] at hnested'
  rw [htokens']
  simp only [bind,Except.bind,hnested']
  split at h
  · rename_i hempty
    obtain ⟨-,rfl⟩ := Prod.mk.inj (Except.ok.inj h)
    have hempty' : left'.isEmpty = true := by
      rw [List.isEmpty_iff_length_eq_zero] at hempty ⊢
      rw [← hleft.length_eq,hempty]
    exact ⟨s',if_pos hempty'⟩
  · cases h

end Highlight.Regex
