import Highlight.Proofs.Regex.Ends

/-!
What an attempt costs. Where it is known what comes next in a text, the returns can be counted after which a
pattern fails there, and so can those of a search that passes over it. Where a pattern leads on to a
position within its budget, it ends there.
-/
namespace Highlight.Regex

namespace Attempt

/-- Failure after a number of returns, if the budget is enough for them. -/
def losing (b n : Nat) : Attempt := if n ≤ b then failed (b - n) else spent

/-- What is tried in turn is lost in turn, with a return in between. -/
lemma losing_orElse (b m n : Nat) : (losing b m).orElse (losing · n) = losing b (m + 1 + n) := by
  rcases Nat.lt_or_ge b (m + 1) with hlt | hle
  · have hspent : losing b (m + 1 + n) = spent := if_neg (by omega)
    rw [hspent]
    rcases Nat.lt_or_ge b m with hlt | hle
    · rw [losing,if_neg (Nat.not_le.mpr hlt)]
      rfl
    · obtain rfl : b = m := by omega
      rw [losing,if_pos hle,Nat.sub_self]
      rfl
  · obtain ⟨left,rfl⟩ := Nat.exists_eq_add_of_le' hle
    have hfailed : losing (left + (m + 1)) m = failed (left + 1) := by
      rw [losing,if_pos (by omega)]
      congr 1
      omega
    rw [hfailed,orElse_failed]
    unfold losing
    split
    · rw [if_pos (by omega)]
      congr 1
      omega
    · rw [if_neg (by omega)]

end Attempt

open Attempt

variable {t : Haystack} {i j k n : Nat} {next : List (Option Char)}

/-- What comes next in a text, `none` being its end. -/
def Haystack.Shows (t : Haystack) (i : Nat) (next : List (Option Char)) : Prop :=
  ∀ k c, next[k]? = some c → t.charAt? (i + k) = c

lemma Haystack.Shows.head {c : Option Char} (h : t.Shows i (c :: next)) : t.charAt? i = c := h 0 c rfl

lemma Haystack.Shows.tail {c : Option Char} (h : t.Shows i (c :: next)) : t.Shows (i + 1) next := by
  intro k d hd
  rw [Nat.add_assoc,Nat.add_comm 1 k]
  exact h (k + 1) d hd

lemma Haystack.Shows.drop (h : t.Shows i next) (n : Nat) : t.Shows (i + n) (next.drop n) := by
  intro k c hc
  rw [List.getElem?_drop] at hc
  rw [Nat.add_assoc]
  exact h (n + k) c hc

lemma Haystack.Shows.cons {c : Option Char} (hnext : t.Shows (i + 1) next) (h : t.charAt? i = c) :
    t.Shows i (c :: next) := by
  intro k d hd
  cases k with
  | zero => exact h.trans (Option.some.inj hd)
  | succ k =>
    rw [Nat.add_comm k 1,← Nat.add_assoc]
    exact hnext k d hd

lemma Haystack.shows_one {c : Option Char} (h : t.charAt? i = c) : t.Shows i [c] :=
  .cons (fun _ _ hd => by cases hd) h

lemma Haystack.lt_size_of_charAt? {c : Char} (h : t.charAt? i = some c) : i < t.size :=
  (Array.getElem?_eq_some_iff.mp h).1

/-- The returns after which a pattern fails on what comes next, given those of what follows it. There is no
answer if that takes more than the characters given. -/
def Pattern.returns? : Pattern → List (Option Char) → (List (Option Char) → Option Nat) → Option Nat
  | empty, next, rest => rest next
  | set cs, next, rest =>
    match next with
    | [] => none
    | none :: _ => some 0
    | some c :: next => if cs.contains c then rest next else some 0
  -- whether it holds or not, nothing is lost if what follows fails at once
  | assert _, next, rest => if rest next = some 0 then some 0 else none
  | cat p q, next, rest => p.returns? next (fun next => q.returns? next rest)
  | alt p q, next, rest => return (← p.returns? next rest) + 1 + (← q.returns? next rest)
  | group _ p, next, rest => p.returns? next rest
  | loop p least most _, next, rest =>
    if most = some 0 then rest next
    else if least = 0 then return (← p.returns? next (fun _ => none)) + 1 + (← rest next)
    else p.returns? next (fun _ => none)
  | _, _, _ => none

/-- The returns after which a pattern fails, whatever follows. -/
def Pattern.refuses? (p : Pattern) (next : List (Option Char)) : Option Nat := p.returns? next (fun _ => none)

/-- What follows fails after the given returns. -/
def Rest.Loses (follow : Rest) (t : Haystack) (rest : List (Option Char) → Option Nat) : Prop :=
  ∀ s next n, rest next = some n → t.Shows s.position next → s.position ≤ t.size → ∀ b,
    follow s b = losing b n

lemma Rest.loses_none (follow : Rest) (t : Haystack) : follow.Loses t (fun _ => none) :=
  fun _ _ _ h => by cases h

/-- A pattern fails after the returns that were counted. -/
theorem attempt_eq_losing {p : Pattern} {rest : List (Option Char) → Option Nat} {follow : Rest} {s : Spot}
    (h : p.returns? next rest = some n) (hshows : t.Shows s.position next) (hs : s.position ≤ t.size)
    (hfollow : follow.Loses t rest) (b : Nat) : p.attempt t s b follow = losing b n := by
  induction p generalizing next rest follow s n b with
  | empty => exact hfollow s next n h hshows hs b
  | set cs =>
    simp only [Pattern.returns?,Pattern.attempt] at h ⊢
    split at h
    · cases h
    · cases h
      rw [hshows.head]
      rfl
    · rename_i c next
      have hlt := Haystack.lt_size_of_charAt? hshows.head
      rw [hshows.head]
      dsimp only
      split at h
      · rename_i hc
        rw [if_pos hc]
        exact hfollow s.advance next n h hshows.tail hlt b
      · rename_i hc
        cases h
        rw [if_neg hc]
        rfl
  | assert a =>
    simp only [Pattern.returns?,Pattern.attempt] at h ⊢
    split at h
    · rename_i hrest
      cases h
      split
      · exact hfollow s next 0 hrest hshows hs b
      · rfl
    · cases h
  | cat p q hp hq =>
    exact hp h hshows hs (fun s' next' n' h' hshows' hs' b' => hq h' hshows' hs' hfollow b') b
  | alt p q hp hq =>
    simp only [Pattern.returns?,Option.bind_eq_bind,Option.bind_eq_some_iff,Option.pure_def,
      Option.some.injEq] at h
    obtain ⟨m,hm,k,hk,rfl⟩ := h
    rw [Pattern.attempt,hp hm hshows hs hfollow b,← losing_orElse]
    congr 1
    funext b
    exact hq hk hshows hs hfollow b
  | group m p hp =>
    have hclose : Rest.Loses (fun s b => follow (s.closeGroup m) b) t rest :=
      fun s' next' n' h' hshows' hs' => hfollow (s'.closeGroup m) next' n' h' hshows' hs'
    exact hp (s := s.openGroup m) h hshows hs hclose b
  | loop p least most greedy hp =>
    -- a first round fails before anything follows it
    have hround : ∀ {m}, p.returns? next (fun _ => none) = some m → ∀ follow : Rest, ∀ b,
        p.attempt t s b follow = losing b m :=
      fun hm follow b => hp hm hshows hs (follow.loses_none t) b
    have hmore : ∀ {m k}, p.returns? next (fun _ => none) = some m → rest next = some k →
        ∀ unbounded room, 0 < room → attemptMore (p.attempt t) greedy unbounded room s b follow =
          losing b (m + 1 + k) := by
      intro m k hm hk unbounded room hroom
      obtain ⟨room,rfl⟩ := Nat.exists_eq_add_one.mpr hroom
      have hexit : follow s = (losing · k) := funext (fun b => hfollow s next k hk hshows hs b)
      rw [attemptMore]
      cases greedy with
      | true =>
        simp only [if_true]
        rw [hround hm,hexit,losing_orElse]
      | false =>
        simp only [Bool.false_eq_true,if_false]
        rw [hexit,funext (fun b => hround hm _ b),losing_orElse]
        congr 1
        omega
    have hrounds : ∀ {m}, p.returns? next (fun _ => none) = some m → ∀ rounds, 0 < rounds → ∀ follow : Rest,
        attemptRounds (p.attempt t) rounds s b follow = losing b m := by
      intro m hm rounds hpos follow
      obtain ⟨rounds,rfl⟩ := Nat.exists_eq_add_one.mpr hpos
      exact hround hm _ b
    simp only [Pattern.returns?] at h
    split at h
    · rename_i hmost
      subst hmost
      simp only [Pattern.attempt,Nat.min_zero,attemptRounds,Nat.zero_sub,attemptMore]
      exact hfollow s next n h hshows hs b
    · rename_i hmost
      split at h
      · rename_i hleast
        subst hleast
        simp only [Option.bind_eq_bind,Option.bind_eq_some_iff,Option.pure_def,Option.some.injEq] at h
        obtain ⟨m,hm,k,hk,rfl⟩ := h
        cases most with
        | none => exact hmore hm hk true _ (by omega)
        | some most =>
          have hpos : 0 < most := Nat.pos_of_ne_zero (fun h => hmost (congrArg some h))
          simp only [Pattern.attempt,Nat.zero_min,attemptRounds,Nat.sub_zero]
          exact hmore hm hk false most hpos
      · rename_i hleast
        cases most with
        | none => exact hrounds h least (Nat.pos_of_ne_zero hleast) _
        | some most =>
          have hpos : 0 < most := Nat.pos_of_ne_zero (fun h => hmost (congrArg some h))
          exact hrounds h _ (Nat.lt_min.mpr ⟨Nat.pos_of_ne_zero hleast,hpos⟩) _
  | look _ _ _ _ _ => cases h
  | backref _ => cases h
  | atomic _ _ _ => cases h

/-- A pattern that is refused ends nowhere. -/
lemma ends_eq_nil_of_refuses? {p : Pattern} (hp : p.isPositional = true) (h : p.refuses? next = some n)
    (hshows : t.Shows i next) (hi : i ≤ t.size) : p.ends t i = [] := by
  have hattempt := attempt_eq_losing h (s := { position := i }) hshows hi (Rest.loses_none .found t) n
  have hexplores := attempt_explores t p { position := i } n .found
  rw [hattempt,losing,if_pos (Nat.le_refl n)] at hexplores
  rw [← routes_positions t hp { position := i },hexplores.eq_nil,List.map_nil]

/-- A pattern leads from a position to another one before anything else, after a number of returns. -/
def Pattern.GoesTo (t : Haystack) (p : Pattern) (i j n : Nat) : Prop :=
  ∀ s : Spot, s.position = i → ∀ b, n ≤ b → ∃ s' : Spot, s'.position = j ∧
    ∀ (rest : Rest) last left, rest s' (b - n) = .found last left → p.attempt t s b rest = .found last left

namespace Pattern

variable {p q : Pattern} {m : Nat}

lemma GoesTo.exists_found (h : p.GoesTo t i j n) {s : Spot} (hs : s.position = i) {b : Nat} (hb : n ≤ b) :
    ∃ last : Spot, last.position = j ∧ p.attempt t s b .found = .found last (b - n) := by
  obtain ⟨last,hlast,hfound⟩ := h s hs b hb
  exact ⟨last,hlast,hfound .found last (b - n) rfl⟩

/-- Where a pattern leads to, it ends. -/
lemma GoesTo.head?_ends (h : p.GoesTo t i j n) (hp : p.isPositional = true) : (p.ends t i).head? = some j := by
  obtain ⟨last,rfl,hfound⟩ := h.exists_found (s := { position := i }) rfl (Nat.le_refl n)
  have hexplores := attempt_explores t p { position := i } n .found
  rw [hfound] at hexplores
  rw [← routes_positions t hp { position := i },List.head?_map,hexplores.head]
  rfl

lemma attempt_set_of_contains {cs : CharSet} {s : Spot} {c : Char} (h : t.charAt? s.position = some c)
    (hc : cs.contains c = true) (b : Nat) (rest : Rest) :
    (Pattern.set cs).attempt t s b rest = rest s.advance b := by
  rw [attempt,h]
  exact if_pos hc

lemma goesTo_set {cs : CharSet} {c : Char} (h : t.charAt? i = some c) (hc : cs.contains c = true) :
    (Pattern.set cs).GoesTo t i (i + 1) 0 := by
  rintro s rfl b -
  exact ⟨s.advance,rfl,fun rest last left hrest => (attempt_set_of_contains h hc b rest).trans hrest⟩

lemma goesTo_assert {a : Assertion} (h : a.holds t i = true) : (Pattern.assert a).GoesTo t i i 0 := by
  rintro s rfl b -
  exact ⟨s,rfl,fun rest last left hrest => (if_pos h).trans hrest⟩

lemma GoesTo.cat (hp : p.GoesTo t i j m) (hq : q.GoesTo t j k n) : (Pattern.cat p q).GoesTo t i k (m + n) := by
  intro s hs b hb
  obtain ⟨s₁,hs₁,hp⟩ := hp s hs b (by omega)
  obtain ⟨s₂,hs₂,hq⟩ := hq s₁ hs₁ (b - m) (by omega)
  refine ⟨s₂,hs₂,fun rest last left hrest => hp _ last left (hq rest last left ?_)⟩
  rwa [Nat.sub_sub]

lemma GoesTo.altLeft (hp : p.GoesTo t i j n) (q : Pattern) : (Pattern.alt p q).GoesTo t i j n := by
  intro s hs b hb
  obtain ⟨s',hs',hp⟩ := hp s hs b hb
  refine ⟨s',hs',fun rest last left hrest => ?_⟩
  rw [attempt,hp rest last left hrest]
  rfl

lemma losing_orElse_found {b n : Nat} (hb : n + 1 ≤ b) (other : Nat → Attempt) :
    (losing b n).orElse other = other (b - (n + 1)) := by
  obtain ⟨left,rfl⟩ := Nat.exists_eq_add_of_le' hb
  have hfailed : losing (left + (n + 1)) n = failed (left + 1) := by
    rw [losing,if_pos (by omega)]
    congr 1
    omega
  rw [hfailed,orElse_failed,Nat.add_sub_cancel]

lemma GoesTo.altRight (hp : p.refuses? next = some m) (hshows : t.Shows i next) (hi : i ≤ t.size)
    (hq : q.GoesTo t i j n) : (Pattern.alt p q).GoesTo t i j (m + 1 + n) := by
  rintro s rfl b hb
  obtain ⟨s',hs',hq⟩ := hq s rfl (b - (m + 1)) (by omega)
  refine ⟨s',hs',fun rest last left hrest => ?_⟩
  rw [attempt,attempt_eq_losing hp hshows hi (rest.loses_none t) b,losing_orElse_found (by omega)]
  exact hq rest last left (by rwa [Nat.sub_sub])

lemma GoesTo.group (hp : p.GoesTo t i j n) (m : Nat) : (Pattern.group m p).GoesTo t i j n := by
  intro s hs b hb
  obtain ⟨s',hs',hp⟩ := hp (s.openGroup m) hs b hb
  exact ⟨s'.closeGroup m,hs',fun rest last left hrest => hp _ last left hrest⟩

/-- A part that may be left out is taken where it leads on. -/
lemma GoesTo.optional (hp : p.GoesTo t i j n) : (Pattern.loop p 0 (some 1) true).GoesTo t i j n := by
  intro s hs b hb
  obtain ⟨s',hs',hp⟩ := hp s hs b hb
  refine ⟨s',hs',fun rest last left hrest => ?_⟩
  simp only [attempt,Nat.zero_min,attemptRounds,attemptMore,if_true,Bool.false_and,
    Bool.false_eq_true,if_false]
  rw [hp _ last left hrest]
  rfl

lemma goesTo_omitted (hp : p.refuses? next = some m) (hshows : t.Shows i next) (hi : i ≤ t.size) :
    (Pattern.loop p 0 (some 1) true).GoesTo t i i (m + 1) := by
  rintro s rfl b hb
  refine ⟨s,rfl,fun rest last left hrest => ?_⟩
  simp only [attempt,Nat.zero_min,attemptRounds,attemptMore,if_true]
  rw [attempt_eq_losing hp hshows hi (Rest.loses_none _ t) b,losing_orElse_found hb]
  exact hrest

/-- How many of the characters that come next a pattern takes first, and after how many returns. -/
def takes? : Pattern → List (Option Char) → Option (Nat × Nat)
  | empty, _ => some (0,0)
  | set cs, next =>
    match next with
    | some c :: _ => if cs.contains c then some (1,0) else none
    | _ => none
  | cat p q, next => do
    let (taken,m) ← p.takes? next
    let (more,n) ← q.takes? (next.drop taken)
    return (taken + more,m + n)
  | alt p q, next =>
    match p.refuses? next with
    | some m => (q.takes? next).map (fun (taken,n) => (taken,m + 1 + n))
    | none => p.takes? next
  | group _ p, next => p.takes? next
  | _, _ => none

lemma goesTo_of_takes? {taken : Nat} (h : p.takes? next = some (taken,n)) (hshows : t.Shows i next)
    (hi : i ≤ t.size) : p.GoesTo t i (i + taken) n ∧ i + taken ≤ t.size := by
  induction p generalizing i next taken n with
  | empty =>
    cases h
    refine ⟨?_,hi⟩
    rintro s rfl b -
    exact ⟨s,rfl,fun rest last left hrest => hrest⟩
  | set cs =>
    simp only [takes?] at h
    split at h
    · split at h
      · rename_i hc
        cases h
        exact ⟨goesTo_set hshows.head hc,Haystack.lt_size_of_charAt? hshows.head⟩
      · cases h
    · cases h
  | cat p q hp hq =>
    simp only [takes?,Option.bind_eq_bind,Option.bind_eq_some_iff,Option.pure_def,Option.some.injEq,
      Prod.exists,Prod.mk.injEq] at h
    obtain ⟨a,m,hm,a',n,hn,rfl,rfl⟩ := h
    obtain ⟨hgoes,hle⟩ := hp hm hshows hi
    obtain ⟨hgoes',hle'⟩ := hq hn (hshows.drop a) hle
    rw [← Nat.add_assoc]
    exact ⟨hgoes.cat hgoes',hle'⟩
  | alt p q hp hq =>
    simp only [takes?] at h
    split at h
    · rename_i hrefuses
      obtain ⟨⟨a,n⟩,hn,h⟩ := Option.map_eq_some_iff.mp h
      cases h
      obtain ⟨hgoes,hle⟩ := hq hn hshows hi
      exact ⟨.altRight hrefuses hshows hi hgoes,hle⟩
    · obtain ⟨hgoes,hle⟩ := hp h hshows hi
      exact ⟨hgoes.altLeft q,hle⟩
  | group m p hp =>
    obtain ⟨hgoes,hle⟩ := hp h hshows hi
    exact ⟨hgoes.group m,hle⟩
  | assert _ | loop _ _ _ _ | look _ _ _ _ | backref _ | atomic _ _ => cases h

section Run

variable {cs : CharSet}

/-- Rounds of a loop over characters take as many of them. -/
lemma attemptRounds_set {s : Spot} (hrun : ∀ k, s.position ≤ k → k < s.position + n →
    ∃ c, t.charAt? k = some c ∧ cs.contains c = true) (b : Nat) (rest : Rest) :
    attemptRounds ((Pattern.set cs).attempt t) n s b rest = rest (s.moveTo (s.position + n)) b := by
  induction n generalizing s with
  | zero => rfl
  | succ n ih =>
    obtain ⟨c,hc,hcs⟩ := hrun s.position (Nat.le_refl _) (by omega)
    have hadvance : s.advance.position = s.position + 1 := rfl
    rw [attemptRounds,attempt_set_of_contains hc hcs,ih (fun k hk hlt => hrun k (by omega) (by omega)),hadvance,Nat.add_assoc,
      Nat.add_comm 1 n]
    rfl

/-- Further rounds take all characters up to one that stops them. -/
lemma attemptMore_set {s : Spot} (hs : s.position ≤ j)
    (hrun : ∀ k, s.position ≤ k → k < j → ∃ c, t.charAt? k = some c ∧ cs.contains c = true)
    (hstop : ∀ c, t.charAt? j = some c → cs.contains c = false) {room : Nat} (hroom : j < s.position + room)
    {b : Nat} (hb : 1 ≤ b) {rest : Rest} {last : Spot} {left : Nat}
    (hrest : rest (s.moveTo j) (b - 1) = .found last left) :
    attemptMore ((Pattern.set cs).attempt t) true true room s b rest = .found last left := by
  induction room generalizing s with
  | zero => omega
  | succ room ih =>
    simp only [attemptMore,if_true]
    rcases Nat.eq_or_lt_of_le hs with rfl | hlt
    · have hbody : ∀ rest : Rest, (Pattern.set cs).attempt t s b rest = losing b 0 := by
        intro rest
        rw [attempt]
        cases hc : t.charAt? s.position with
        | none => rfl
        | some c => exact if_neg (by simp [hstop c hc])
      rw [hbody,losing_orElse_found hb]
      exact hrest
    · obtain ⟨c,hc,hcs⟩ := hrun s.position (Nat.le_refl _) hlt
      have hadvance : s.advance.position = s.position + 1 := rfl
      have hagain := ih (s := s.advance) hlt (fun k hk => hrun k (Nat.le_of_succ_le hk)) (by omega) hrest
      rw [attempt_set_of_contains hc hcs,hadvance,if_neg (by simp),hagain]
      rfl

/-- A loop over characters takes all that come next. -/
lemma goesTo_run {least : Nat} (hleast : i + least ≤ j) (hj : j ≤ t.size)
    (hrun : ∀ k, i ≤ k → k < j → ∃ c, t.charAt? k = some c ∧ cs.contains c = true)
    (hstop : ∀ c, t.charAt? j = some c → cs.contains c = false) :
    (Pattern.loop (.set cs) least none true).GoesTo t i j 1 := by
  rintro s rfl b hb
  refine ⟨s.moveTo j,rfl,fun rest last left hrest => ?_⟩
  have hmoved : (s.moveTo (s.position + least)).position = s.position + least := rfl
  rw [attempt,attemptRounds_set (fun k hk hlt => hrun k hk (by omega))]
  exact attemptMore_set hleast (fun k hk => hrun k (by omega)) hstop (by omega) hb hrest

end Run

end Pattern

/-- A search that passes over positions where a pattern fails after as many returns at each of them. -/
lemma searchBacktracking_losing {p : Pattern} {start b : Nat}
    (h : ∀ q, start ≤ q → q < start + n → ∀ b, p.attempt t { position := q } b .found = losing b k) (m : Nat) :
    searchBacktracking p t (n + m) start b =
      if n * (k + 1) ≤ b then searchBacktracking p t m (start + n) (b - n * (k + 1)) else .error .gaveUp := by
  induction n generalizing start b with
  | zero => simp
  | succ n ih =>
    rw [Nat.add_right_comm,searchBacktracking,h start (Nat.le_refl _) (by omega),Nat.add_one_mul]
    rcases Nat.lt_or_ge b (k + 1) with hlt | hle
    · rw [if_neg (by omega)]
      rcases Nat.lt_or_ge b k with hlt | hle
      · rw [losing,if_neg (Nat.not_le.mpr hlt)]
      · obtain rfl : b = k := by omega
        rw [losing,if_pos hle,Nat.sub_self]
    · obtain ⟨left,rfl⟩ := Nat.exists_eq_add_of_le' hle
      rw [losing,if_pos (by omega),show left + (k + 1) - k = left + 1 by omega]
      dsimp only
      rw [ih (fun q hq hlt => h q (by omega) (by omega))]
      have hiff : n * (k + 1) ≤ left ↔ n * (k + 1) + (k + 1) ≤ left + (k + 1) := by omega
      simp only [hiff]
      congr 2 <;> omega

/-- A search finds where a pattern leads on to, beyond positions where it fails. -/
lemma exists_searchBacktracking {p : Pattern} {start b room m : Nat}
    (h : ∀ q, start ≤ q → q < start + n → ∀ b, p.attempt t { position := q } b .found = losing b k)
    (hgoes : p.GoesTo t (start + n) j m) (hroom : n < room) (hb : n * (k + 1) + m ≤ b) :
    ∃ found, searchBacktracking p t room start b = .ok found := by
  obtain ⟨rest,rfl⟩ := Nat.exists_eq_add_of_le hroom
  obtain ⟨last,-,hfound⟩ := hgoes.exists_found (s := { position := start + n }) rfl
    (show m ≤ b - n * (k + 1) by omega)
  refine ⟨some ⟨start + n,last⟩,?_⟩
  rw [show n.succ + rest = n + (rest + 1) by omega,searchBacktracking_losing h,if_pos (by omega),
    searchBacktracking,hfound]

end Highlight.Regex
