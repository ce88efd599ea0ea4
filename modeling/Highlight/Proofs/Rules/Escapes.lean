import Highlight.Proofs.Except
import Highlight.Proofs.Rules.Skips

/-!
Escapes and sets. The rest of an escape, such as the digits of a code point or the name of a class, is
of letters that mean nothing elsewhere, so that the light scan finds the same end of a set.
-/
namespace Highlight

namespace Regex

/-- Escapes that differ in the characters of a class alone. -/
inductive Escaped.Alike : Escaped → Escaped → Prop
  | char (c : Char) : Alike (.char c) (.char c)
  | class (s s' : CharSet) : Alike (.class s) (.class s')

lemma Escaped.Alike.refl (e : Escaped) : e.Alike e := by
  cases e with
  | char c => exact .char c
  | «class» s => exact .class s s

/-- An escape ends at the same place whether or not it is closed under case. -/
lemma readEscape_alike {fold : Bool} {c : Char} {cs rest : List Char} {e : Escaped}
    (h : readEscape fold c cs = .ok (e,rest)) (fold' : Bool) :
    ∃ e', readEscape fold' c cs = .ok (e',rest) ∧ e.Alike e' := by
  unfold readEscape at h ⊢
  cases hw : hexWidth? c with
  | some digits =>
    rw [hw] at h
    exact ⟨e,h,.refl e⟩
  | none =>
    rw [hw] at h
    dsimp only at h ⊢
    split at h
    · rename_i hp
      obtain ⟨⟨name,rest'⟩,hname,h⟩ := except_bind_eq_ok.mp h
      dsimp only at h
      split at h
      · rename_i s hclass
        obtain ⟨rfl,rfl⟩ := Prod.mk.inj (Except.ok.inj h)
        rw [if_pos hp]
        refine ⟨.class (.complIf (c = 'P') (.foldIf fold' s)),?_,.class _ _⟩
        simp only [readNamedClass,hname,bind,Except.bind,hclass]
        rfl
      · cases h
    · rename_i hp
      rw [if_neg hp]
      exact ⟨e,h,.refl e⟩

end Regex

namespace Rules

open Regex

/-- A character that neither opens nor closes a group or a set and hides nothing. -/
structure IsWordy (c : Char) : Prop where
  ordinary : IsOrdinary c
  paren : c ≠ ')'
  bracket : c ≠ ']'

lemma Spares.wordy {p : Char → Bool} {c : Char} (hp : Spares p) (hb : p ']' = false) (h : p c = true) :
    IsWordy c := by
  obtain ⟨ho,hc⟩ := hp.ordinary h
  refine ⟨ho,hc,?_⟩
  rintro rfl
  exact Bool.noConfusion (hb.symm.trans h)

/-- A reader takes up wordy characters, and it does so whatever follows them. -/
def ReadsWordy {α : Type} (read : List Char → Except PatternError (α × List Char)) (cs : List Char)
    (a : α) (cs' : List Char) : Prop :=
  ∃ u, cs = u ++ cs' ∧ (∀ c ∈ u, IsWordy c) ∧ ∀ rest, read (u ++ rest) = .ok (a,rest)

variable {cs cs' rest body : List Char} {named fold : Bool} {d : Nat} {c : Char}

lemma spares_isHex : Spares isHex := ⟨rfl,rfl,rfl,rfl⟩

lemma takeWhile_stop {p : Char → Bool} {u : List Char} (hu : ∀ c ∈ u, p c = true) (hc : p c = false)
    (rest : List Char) : (u ++ c :: rest).takeWhile p = u ∧
      (u ++ c :: rest).dropWhile p = c :: rest := by
  constructor
  · rw [List.takeWhile_append_of_pos hu,List.takeWhile_cons_of_neg (by simp [hc]),List.append_nil]
  · rw [List.dropWhile_append_of_pos hu,List.dropWhile_cons_of_neg (by simp [hc])]

lemma isWordy_open : IsWordy '\x7b' := ⟨⟨by decide,by decide,by decide⟩,by decide,by decide⟩
lemma isWordy_close : IsWordy '\x7d' := ⟨⟨by decide,by decide,by decide⟩,by decide,by decide⟩

lemma readBracedHex_wordy (h : readBracedHex cs = .ok (c,cs')) :
    ReadsWordy readBracedHex cs c cs' := by
  have hall : ∀ c ∈ cs.takeWhile isHex, isHex c = true := List.all_eq_true.mp List.all_takeWhile
  simp only [readBracedHex] at h
  split at h
  · cases h
  · rename_i hc
    obtain ⟨code,hcode,heq⟩ := except_map_eq_ok.mp h
    obtain ⟨rfl,rfl⟩ := Prod.mk.inj heq
    simp only [Bool.or_eq_true,not_or] at hc
    obtain ⟨⟨hclosed,hempty⟩,hlen⟩ := hc
    have hdrop := eq_cons_of_takeMark (by simpa using hclosed)
    refine ⟨cs.takeWhile isHex ++ ['\x7d'],?_,fun c hc => ?_,fun rest => ?_⟩
    · rw [List.append_assoc,List.singleton_append,← hdrop,List.takeWhile_append_dropWhile]
    · rcases List.mem_append.mp hc with hc | hc
      · exact spares_isHex.wordy rfl (hall c hc)
      · rw [List.mem_singleton.mp hc]
        exact isWordy_close
    · obtain ⟨htake,hrest⟩ := takeWhile_stop hall (c := '\x7d') rfl rest
      rw [List.append_assoc,List.singleton_append]
      simp only [readBracedHex,htake,hrest,hcode]
      simpa [takeMark,Except.map,hempty] using hlen

lemma readHex_wordy {n : Nat} (h : readHex n cs = .ok (c,cs')) : ReadsWordy (readHex n) cs c cs' := by
  simp only [readHex] at h
  by_cases hstart : ((cs.take n).length = n && (cs.take n).all isHex) = true
  · rw [if_pos hstart] at h
    obtain ⟨code,hcode,heq⟩ := except_map_eq_ok.mp h
    obtain ⟨rfl,rfl⟩ := Prod.mk.inj heq
    have hcond := hstart
    simp only [Bool.and_eq_true,decide_eq_true_eq] at hstart
    obtain ⟨hlen,hall⟩ := hstart
    refine ⟨cs.take n,(List.take_append_drop n cs).symm,fun c hc => ?_,fun rest => ?_⟩
    · exact spares_isHex.wordy rfl (List.all_eq_true.mp hall c hc)
    · have htake : (cs.take n ++ rest).take n = cs.take n := by
        rw [List.take_append_of_le_length (Nat.le_of_eq hlen.symm),List.take_take,Nat.min_self]
      have hdrop : (cs.take n ++ rest).drop n = rest := by
        rw [List.drop_append_of_le_length (Nat.le_of_eq hlen.symm),
          List.drop_eq_nil_of_le (Nat.le_of_eq hlen),List.nil_append]
      simp only [readHex,htake,hdrop]
      rw [if_pos hcond,hcode]
      rfl
  · rw [if_neg hstart] at h
    split at h
    · rename_i hhead
      obtain ⟨cs,rfl⟩ := List.head?_eq_some_iff.mp hhead
      obtain ⟨u,rfl,hu,hread⟩ := readBracedHex_wordy h
      refine ⟨'\x7b' :: u,rfl,fun c hc => ?_,fun rest => ?_⟩
      · rcases List.mem_cons.mp hc with rfl | hc
        · exact isWordy_open
        · exact hu c hc
      · have hnot : ¬ ((('\x7b' :: u ++ rest).take n).length = n &&
            (('\x7b' :: u ++ rest).take n).all isHex) = true := by
          cases n with
          | zero => exact absurd rfl hstart
          | succ n => simp [show isHex '\x7b' = false from rfl]
        simp only [readHex]
        rw [if_neg hnot]
        exact hread rest
    · cases h

lemma categoryNames_isLower :
    (categoryNames.all (fun p => p.1.toList.all Char.isLower)) = true := by
  decide +kernel

/-- Every name of a class is written in letters, but for blanks and the like. -/
lemma isLower_of_namedClass? {name : String} {s : CharSet} (h : namedClass? name = some s) :
    ∀ c ∈ name.toList, (c != ' ' && c != '_' && c != '-') = true → c.toLower.isLower = true := by
  intro c hc hkept
  have hkey : c.toLower ∈ (String.ofList
      ((name.toList.filter (fun c => c != ' ' && c != '_' && c != '-')).map Char.toLower)).toList := by
    rw [String.toList_ofList]
    exact List.mem_map_of_mem (List.mem_filter.mpr ⟨hc,hkept⟩)
  unfold namedClass? at h
  generalize String.ofList
    ((name.toList.filter (fun c => c != ' ' && c != '_' && c != '-')).map Char.toLower) = key at h hkey
  have hall : key.toList.all Char.isLower = true := by
    dsimp only at h
    split at h
    · decide
    · decide
    · decide
    · decide
    · decide
    · decide
    · obtain ⟨members,hlookup,-⟩ := Option.map_eq_some_iff.mp h
      obtain ⟨l₁,l₂,hnames,-⟩ := List.lookup_eq_some_iff.mp hlookup
      have hmem : (key,members) ∈ categoryNames := by rw [hnames]; simp
      exact List.all_eq_true.mp categoryNames_isLower _ hmem
  exact List.all_eq_true.mp hall _ hkey

lemma wordy_of_namedClass? {name : String} {s : CharSet} (h : namedClass? name = some s) :
    ∀ c ∈ name.toList, IsWordy c := by
  intro c hc
  have hlower := isLower_of_namedClass? h c hc
  refine ⟨⟨?_,?_,?_⟩,?_,?_⟩
  · rintro rfl
    exact absurd (hlower rfl) (by decide)
  · rintro rfl
    exact absurd (hlower rfl) (by decide)
  · rintro rfl
    exact absurd (hlower rfl) (by decide)
  · rintro rfl
    exact absurd (hlower rfl) (by decide)
  · rintro rfl
    exact absurd (hlower rfl) (by decide)

lemma readClassName_wordy {name : String} (h : readClassName cs = .ok (name,cs'))
    (hw : ∀ c ∈ name.toList, IsWordy c) : ReadsWordy readClassName cs name cs' := by
  cases cs with
  | nil => cases h
  | cons b cs =>
    by_cases hb : b = '\x7b'
    · subst hb
      simp only [readClassName] at h
      split at h
      · cases h
      · rename_i e rest hdrop
        obtain ⟨rfl,rfl⟩ := Prod.mk.inj (Except.ok.inj h)
        rw [String.toList_ofList] at hw
        have he : e = '\x7d' := by
          have hnot := List.head?_dropWhile_not (· != '\x7d') cs
          rw [hdrop] at hnot
          simpa using hnot
        subst he
        have hall : ∀ c ∈ cs.takeWhile (· != '\x7d'), (c != '\x7d') = true :=
          List.all_eq_true.mp List.all_takeWhile
        refine ⟨'\x7b' :: cs.takeWhile (· != '\x7d') ++ ['\x7d'],?_,fun c hc => ?_,fun rest => ?_⟩
        · rw [List.cons_append,List.cons_append,List.append_assoc,List.singleton_append,← hdrop,
            List.takeWhile_append_dropWhile]
        · rcases List.mem_append.mp hc with hc | hc
          · rcases List.mem_cons.mp hc with rfl | hc
            · exact isWordy_open
            · exact hw c hc
          · rw [List.mem_singleton.mp hc]
            exact isWordy_close
        · obtain ⟨htake,hrest⟩ := takeWhile_stop hall (c := '\x7d') rfl rest
          rw [List.cons_append,List.cons_append,List.append_assoc,List.singleton_append]
          simp only [readClassName,htake,hrest]
    · have hsingle : ∀ rest, readClassName (b :: rest) = .ok (String.singleton b,rest) := by
        intro rest
        simp [readClassName]
      rw [hsingle] at h
      obtain ⟨rfl,rfl⟩ := Prod.mk.inj (Except.ok.inj h)
      exact ⟨[b],rfl,by simpa using hw,hsingle⟩

lemma readNamedClass_wordy {negated : Bool} {e : Escaped}
    (h : readNamedClass fold negated cs = .ok (e,cs')) :
    ReadsWordy (readNamedClass fold negated) cs e cs' := by
  simp only [readNamedClass] at h
  cases hname : readClassName cs with
  | error e =>
    rw [hname] at h
    cases h
  | ok r =>
    rw [hname] at h
    simp only [bind,Except.bind] at h
    cases hclass : namedClass? r.1 with
    | none =>
      rw [hclass] at h
      cases h
    | some s =>
      rw [hclass] at h
      obtain ⟨rfl,rfl⟩ := Prod.mk.inj (Except.ok.inj h)
      obtain ⟨u,hcs,hu,hread⟩ := readClassName_wordy hname (wordy_of_namedClass? hclass)
      refine ⟨u,hcs,hu,fun rest => ?_⟩
      simp only [readNamedClass,hread,bind,Except.bind,hclass]
      rfl

lemma ReadsWordy.map {α β : Type} {read : List Char → Except PatternError (α × List Char)} {a : α}
    {f : α → β} (h : ReadsWordy read cs a cs') :
    ReadsWordy (fun cs => (read cs).map (fun r => (f r.1,r.2))) cs (f a) cs' := by
  obtain ⟨u,hcs,hu,hread⟩ := h
  refine ⟨u,hcs,hu,fun rest => ?_⟩
  simp only [hread]
  rfl

/-- An escape is read up to the same end, whatever follows. -/
theorem readEscape_wordy {e : Escaped} (h : readEscape fold c cs = .ok (e,cs')) :
    ReadsWordy (readEscape fold c) cs e cs' := by
  unfold readEscape at h ⊢
  cases hw : hexWidth? c with
  | some digits =>
    rw [hw] at h
    obtain ⟨r,hread,heq⟩ := except_map_eq_ok.mp h
    obtain ⟨rfl,rfl⟩ := Prod.mk.inj heq
    exact (readHex_wordy hread).map
  | none =>
    rw [hw] at h
    dsimp only at h ⊢
    by_cases hp : (c = 'p' || c = 'P') = true
    · simp only [if_pos hp] at h ⊢
      exact readNamedClass_wordy h
    · simp only [if_neg hp] at h ⊢
      obtain ⟨e',hsimple,heq⟩ := except_map_eq_ok.mp h
      obtain ⟨rfl,rfl⟩ := Prod.mk.inj heq
      refine ⟨[],rfl,by simp,fun rest => ?_⟩
      rw [hsimple]
      rfl

/-- The same text is read of an escape, whatever follows it and whether or not it is closed under case. -/
lemma readEscape_reads {e : Escaped} (h : readEscape fold c cs = .ok (e,cs')) : ∃ u, cs = u ++ cs' ∧
    (∀ c ∈ u, IsWordy c) ∧ ∀ fold', ∃ e', (fold' = fold → e' = e) ∧
      ∀ rest, readEscape fold' c (u ++ rest) = .ok (e',rest) := by
  obtain ⟨u,rfl,hu,hread⟩ := readEscape_wordy h
  refine ⟨u,rfl,hu,fun fold' => ?_⟩
  obtain ⟨e',h',-⟩ := readEscape_alike h fold'
  obtain ⟨v,hv,-,hread'⟩ := readEscape_wordy h'
  obtain rfl := List.append_cancel_right hv
  refine ⟨e',?_,hread'⟩
  rintro rfl
  exact (Prod.mk.inj (Except.ok.inj (h'.symm.trans h))).1

section Sets

variable {tokens : List SetToken} {n : Nat}

/-- A set is read up to the same end, whatever follows it and whether or not it is closed under case. -/
lemma setTokens_reads (h : setTokens fold n d cs = .ok (tokens,cs')) : ∃ u, cs = u ++ cs' ∧
    ∀ fold', ∃ tokens', (fold' = fold → tokens' = tokens) ∧
      ∀ m rest, n ≤ m → setTokens fold' m d (u ++ rest) = .ok (tokens',rest) := by
  induction n generalizing d cs tokens with
  | zero => cases h
  | succ n ih =>
    cases cs with
    | nil => cases h
    | cons c rest =>
      cases d with
      | zero => cases h
      | succ d =>
        simp only [setTokens] at h
        split at h
        · cases rest with
          | nil => cases h
          | cons b rest =>
            dsimp only at h
            split at h
            · cases h
            · rename_i hdigit
              obtain ⟨⟨escaped,rest₁⟩,hescape,h⟩ := except_bind_eq_ok.mp h
              obtain ⟨⟨tokens₁,rest₂⟩,htokens,h⟩ := except_bind_eq_ok.mp h
              obtain ⟨rfl,rfl⟩ := Prod.mk.inj (Except.ok.inj h)
              obtain ⟨u,rfl,-,hread⟩ := readEscape_reads hescape
              obtain ⟨v,rfl,hall⟩ := ih htokens
              refine ⟨'\\' :: b :: (u ++ v),by simp,fun fold' => ?_⟩
              obtain ⟨escaped',hescaped,hread⟩ := hread fold'
              obtain ⟨tokens',htokens',hall⟩ := hall fold'
              refine ⟨.fixed escaped' :: tokens',fun hf => by rw [hescaped hf,htokens' hf],fun m tail hm => ?_⟩
              obtain ⟨m,rfl⟩ := Nat.exists_eq_add_one_of_ne_zero (by omega : m ≠ 0)
              simp only [List.cons_append,List.append_assoc,setTokens,if_neg hdigit,hread]
              simp only [bind,Except.bind,hall m tail (Nat.le_of_succ_le_succ hm)]
              rfl
        · split at h
          · rename_i hd
            obtain ⟨rfl,rfl⟩ := Prod.mk.inj (Except.ok.inj h)
            refine ⟨[']'],rfl,fun fold' => ⟨_,fun _ => rfl,fun m tail hm => ?_⟩⟩
            obtain ⟨m,rfl⟩ := Nat.exists_eq_add_one_of_ne_zero (by omega : m ≠ 0)
            exact if_pos hd
          · rename_i hd
            obtain ⟨⟨tokens₁,rest₁⟩,htokens,h⟩ := except_bind_eq_ok.mp h
            obtain ⟨rfl,rfl⟩ := Prod.mk.inj (Except.ok.inj h)
            obtain ⟨u,rfl,hall⟩ := ih htokens
            refine ⟨']' :: u,rfl,fun fold' => ?_⟩
            obtain ⟨tokens',htokens',hall⟩ := hall fold'
            refine ⟨.raw ']' :: tokens',fun hf => by rw [htokens' hf],fun m tail hm => ?_⟩
            obtain ⟨m,rfl⟩ := Nat.exists_eq_add_one_of_ne_zero (by omega : m ≠ 0)
            simp only [List.cons_append,setTokens,if_neg hd,bind,Except.bind,
              hall m tail (Nat.le_of_succ_le_succ hm)]
            rfl
        · obtain ⟨⟨tokens₁,rest₁⟩,htokens,h⟩ := except_bind_eq_ok.mp h
          obtain ⟨rfl,rfl⟩ := Prod.mk.inj (Except.ok.inj h)
          obtain ⟨u,rfl,hall⟩ := ih htokens
          refine ⟨'[' :: u,rfl,fun fold' => ?_⟩
          obtain ⟨tokens',htokens',hall⟩ := hall fold'
          refine ⟨.raw '[' :: tokens',fun hf => by rw [htokens' hf],fun m tail hm => ?_⟩
          obtain ⟨m,rfl⟩ := Nat.exists_eq_add_one_of_ne_zero (by omega : m ≠ 0)
          simp only [List.cons_append,setTokens,bind,Except.bind,
            hall m tail (Nat.le_of_succ_le_succ hm)]
          rfl
        · obtain ⟨⟨tokens₁,rest₁⟩,htokens,h⟩ := except_bind_eq_ok.mp h
          obtain ⟨rfl,rfl⟩ := Prod.mk.inj (Except.ok.inj h)
          obtain ⟨u,rfl,hall⟩ := ih htokens
          refine ⟨c :: u,rfl,fun fold' => ?_⟩
          obtain ⟨tokens',htokens',hall⟩ := hall fold'
          refine ⟨.raw c :: tokens',fun hf => by rw [htokens' hf],fun m tail hm => ?_⟩
          obtain ⟨m,rfl⟩ := Nat.exists_eq_add_one_of_ne_zero (by omega : m ≠ 0)
          simp only [List.cons_append,setTokens,bind,Except.bind,
            hall m tail (Nat.le_of_succ_le_succ hm)]
          rfl

/-- Wordy characters do not end a set. -/
lemma setBody?_append {u : List Char} (hu : ∀ c ∈ u, IsWordy c) (cs : List Char) :
    setBody? (u ++ cs) = (setBody? cs).map (fun r => (u ++ r.1,r.2)) := by
  induction u with
  | nil => simp
  | cons c u ih =>
    have hc := hu c List.mem_cons_self
    rw [List.cons_append]
    rw [setBody?]
    · rw [ih (fun c hc => hu c (List.mem_cons_of_mem _ hc))]
      cases setBody? cs with
      | none => rfl
      | some r => rfl
    · intro h _
      exact hc.ordinary.2.2 h
    · exact hc.bracket
    · intro _ _ h
      exact absurd h hc.ordinary.2.2

lemma hasBracket_append {u : List Char} (hu : ∀ c ∈ u, IsWordy c) (cs : List Char) :
    hasBracket (u ++ cs) = hasBracket cs := by
  induction u with
  | nil => rfl
  | cons c u ih =>
    have hc := hu c List.mem_cons_self
    rw [List.cons_append,hasBracket]
    · exact ih (fun c hc => hu c (List.mem_cons_of_mem _ hc))
    · exact hc.ordinary.1
    · intro _ _ h
      exact absurd h hc.ordinary.2.2

lemma setTokens_plain (h1 : c ≠ '\\') (h2 : c ≠ ']') (h3 : c ≠ '[') (n : Nat) (cs : List Char) :
    setTokens fold (n + 1) 1 (c :: cs) =
      (setTokens fold n 1 cs).map (fun r => (.raw c :: r.1,r.2)) := by
  simp only [setTokens]
  cases setTokens fold n 1 cs with
  | error e => rfl
  | ok r => rfl

lemma setTokens_escape {e : Char} (he : e.isDigit = false) (n : Nat) (cs : List Char) :
    setTokens fold (n + 1) 1 ('\\' :: e :: cs) =
      (readEscape fold e cs).bind (fun r =>
        (setTokens fold n 1 r.2).map (fun r' => (.fixed r.1 :: r'.1,r'.2))) := by
  simp only [setTokens,he]
  cases readEscape fold e cs with
  | error e => rfl
  | ok r =>
    simp only [bind,Except.bind]
    cases setTokens fold n 1 r.2 with
    | error e => rfl
    | ok r => rfl

lemma setBody?_plain (h1 : c ≠ '\\') (h2 : c ≠ ']') (cs : List Char) :
    setBody? (c :: cs) = (setBody? cs).map (fun r => (c :: r.1,r.2)) := by
  rw [setBody?]
  · intro h _
    exact h1 h
  · exact h2
  · intro _ _ h
    exact absurd h h1

lemma setBody?_escape {e : Char} (he : e ≠ '\n') (cs : List Char) :
    setBody? ('\\' :: e :: cs) = (setBody? cs).map (fun r => ('\\' :: e :: r.1,r.2)) := by
  rw [setBody?,if_neg he]

/-- A set without inner brackets ends for the reader where it ends for the light scan. -/
theorem setTokens_body (h : setTokens fold n 1 cs = .ok (tokens,cs'))
    (hbody : setBody? cs = some (body,rest)) (hb : hasBracket body = false) :
    cs' = rest ∧ ∀ (m : Nat) (rest : List Char), body.length < m →
      setTokens fold m 1 (body ++ ']' :: rest) = .ok (tokens,rest) := by
  induction n generalizing cs body tokens with
  | zero => cases h
  | succ n ih =>
    cases cs with
    | nil => cases h
    | cons c cs =>
      by_cases hclose : c = ']'
      · subst hclose
        obtain ⟨rfl,rfl⟩ := Prod.mk.inj (Except.ok.inj h)
        obtain ⟨rfl,rfl⟩ := Prod.mk.inj (Option.some.inj hbody)
        refine ⟨rfl,fun m rest hm => ?_⟩
        obtain ⟨m,rfl⟩ := Nat.exists_eq_succ_of_ne_zero (Nat.ne_of_gt hm)
        rfl
      by_cases hslash : c = '\\'
      · subst hslash
        cases cs with
        | nil => cases h
        | cons e cs =>
          by_cases hline : e = '\n'
          · subst hline
            cases hbody
          have hdigit : e.isDigit = false := by
            cases hd : e.isDigit with
            | false => rfl
            | true =>
              simp only [setTokens,hd] at h
              cases h
          rw [setBody?_escape hline,Option.map_eq_some_iff] at hbody
          obtain ⟨⟨b,r⟩,hb',heq⟩ := hbody
          obtain ⟨rfl,rfl⟩ := Prod.mk.inj heq
          rw [setTokens_escape hdigit] at h
          cases hescape : readEscape fold e cs with
          | error e =>
            rw [hescape] at h
            cases h
          | ok r' =>
            rw [hescape] at h
            obtain ⟨⟨toks,rest'⟩,htok,heq⟩ := except_map_eq_ok.mp h
            obtain ⟨rfl,rfl⟩ := Prod.mk.inj heq
            obtain ⟨u,rfl,hu,hread⟩ := readEscape_wordy hescape
            rw [setBody?_append hu,Option.map_eq_some_iff] at hb'
            obtain ⟨⟨b',r⟩,hb',heq⟩ := hb'
            obtain ⟨rfl,rfl⟩ := Prod.mk.inj heq
            have hb : hasBracket b' = false := by
              rw [← hasBracket_append hu]
              exact hb
            obtain ⟨hrest,hall⟩ := ih htok hb' hb
            refine ⟨hrest,fun m rest hm => ?_⟩
            obtain ⟨m,rfl⟩ := Nat.exists_eq_succ_of_ne_zero (Nat.ne_of_gt (Nat.zero_lt_of_lt hm))
            simp only [List.length_cons,List.length_append] at hm
            rw [List.cons_append,List.cons_append,List.append_assoc,setTokens_escape hdigit,hread]
            simp only [Except.bind,hall m rest (by omega)]
            rfl
      · rw [setBody?_plain hslash hclose,Option.map_eq_some_iff] at hbody
        obtain ⟨⟨b,r⟩,hb',heq⟩ := hbody
        obtain ⟨rfl,rfl⟩ := Prod.mk.inj heq
        by_cases hopen : c = '['
        · subst hopen
          cases hb
        · rw [setTokens_plain hslash hclose hopen] at h
          obtain ⟨⟨toks,rest'⟩,htok,heq⟩ := except_map_eq_ok.mp h
          obtain ⟨rfl,rfl⟩ := Prod.mk.inj heq
          have hb : hasBracket b = false := by
            rw [hasBracket] at hb
            · exact hb
            · exact hopen
            · intro _ _ h
              exact absurd h hslash
          obtain ⟨hrest,hall⟩ := ih htok hb' hb
          refine ⟨hrest,fun m rest hm => ?_⟩
          obtain ⟨m,rfl⟩ := Nat.exists_eq_succ_of_ne_zero (Nat.ne_of_gt (Nat.zero_lt_of_lt hm))
          rw [List.cons_append,setTokens_plain hslash hclose hopen,
            hall m rest (Nat.lt_of_succ_lt_succ hm)]
          rfl

lemma setStart_body (hne : body ≠ []) (hcaret : body ≠ ['^']) {cs : List Char}
    (h : setBody? (body ++ ']' :: cs) = some (body,cs)) :
    ∃ start inner, (∀ rest, setStart (body ++ ']' :: rest) = (start,inner ++ ']' :: rest)) ∧
      setBody? (inner ++ ']' :: cs) = some (inner,cs) ∧ hasBracket inner = hasBracket body := by
  cases body with
  | nil => exact absurd rfl hne
  | cons c inner =>
    by_cases hc : c = '^'
    · subst hc
      cases inner with
      | nil => exact absurd rfl hcaret
      | cons b inner =>
        rw [List.cons_append,setBody?_plain (by decide) (by decide),Option.map_eq_some_iff] at h
        obtain ⟨⟨body',r⟩,h,heq⟩ := h
        obtain ⟨hb,hr⟩ := Prod.mk.inj heq
        obtain rfl : body' = b :: inner := (List.cons.inj hb).2
        obtain rfl : r = cs := hr
        have hb : b ≠ ']' := by
          rintro rfl
          cases h
        exact ⟨[.raw '^'],b :: inner,fun rest => by simp [setStart,takeMark,hb],h,rfl⟩
    · have hb : c ≠ ']' := by
        rintro rfl
        cases h
      exact ⟨[],c :: inner,fun rest => by simp [setStart,takeMark,hc,hb],h,rfl⟩

/-- A set is read up to the bracket that the light scan takes for its end. -/
theorem readSet_body {s : CharSet} (h : readSet fold cs = .ok (s,cs'))
    (hbody : setBody? cs = some (body,rest)) (hne : body ≠ []) (hcaret : body ≠ ['^'])
    (hb : hasBracket body = false) :
    cs' = rest ∧ ∀ rest, readSet fold (body ++ ']' :: rest) = .ok (s,rest) := by
  obtain rfl := setBody?_text hbody
  obtain ⟨start,inner,hstart,hinner,hbracket⟩ := setStart_body hne hcaret hbody
  simp only [readSet,hstart] at h
  cases htokens : setTokens fold ((inner ++ ']' :: rest).length + 1) 1 (inner ++ ']' :: rest) with
  | error e =>
    rw [htokens] at h
    cases h
  | ok r =>
    obtain ⟨hrest,hall⟩ := setTokens_body htokens hinner (hbracket.trans hb)
    rw [htokens] at h
    simp only [bind,Except.bind] at h
    cases hitems : readNested fold (readSetItems fold (2 * (start ++ r.1).length + 2)) (start ++ r.1) with
    | error e =>
      rw [hitems] at h
      cases h
    | ok items =>
      rw [hitems] at h
      dsimp only at h
      split at h
      · rename_i hleft
        obtain ⟨rfl,rfl⟩ := Prod.mk.inj (Except.ok.inj h)
        refine ⟨hrest,fun rest' => ?_⟩
        have hlen : inner.length < (inner ++ ']' :: rest').length + 1 := by
          rw [List.length_append]
          omega
        simp only [readSet,hstart,hall _ rest' hlen,bind,Except.bind,hitems,hleft]
        rfl
      · cases h

end Sets
end Rules
end Highlight
