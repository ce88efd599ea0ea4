import Highlight.Proofs.Rules.Anchored
import Highlight.Proofs.Rules.Lines
import Highlight.Proofs.Rules.ZeroWidth
import Highlight.Proofs.Scan.Outlined

/-!
Grammars that mark parts of lines. Below the top mode there are modes that begin inside a line and close
at once or where the line ends. A scan by such a grammar comes down to a list of marks, and the marks of a
text are those of its lines.
-/
namespace Highlight

open Rules Regex

/-- A mode for a part of a line. It closes where the line ends, or else at once. -/
structure LineMode where
  beginPattern : String
  className : String
  relevance : Nat
  toLineEnd : Bool

namespace LineMode

def endPattern (m : LineMode) : String := if m.toLineEnd then "$" else Assembly.zeroWidth

def outline (m : LineMode) : Assembly.Outline where
  className := some m.className
  endPattern := some m.endPattern
  relevance := m.relevance
  rules := [⟨m.endPattern,.ends⟩]

/-- The rules of the mode around. -/
def rules (ms : List LineMode) : List Rule := ms.mapIdx (fun i m => ⟨m.beginPattern,.begins (i + 1)⟩)

def topOutline (ms : List LineMode) : Assembly.Outline := { rules := rules ms }

end LineMode

/-- A grammar that has nothing but modes for parts of lines, none of which begins empty. -/
structure Grammar.MarksLines (g : Grammar) (ms : List LineMode) : Prop where
  ignoreCase : g.ignoreCase = false
  outlines : Assembly.outlines g = some (LineMode.topOutline ms :: ms.map LineMode.outline)
  combinable : isCombinable (LineMode.rules ms) false false = true
  plain : ∀ rule ∈ LineMode.rules ms, (Regex.compileRule rule.pattern false).toOption.all (·.plain) = true
  staysInLine : ∀ rule ∈ LineMode.rules ms, rule.staysInLine false = true
  takesSome : ∀ rule ∈ LineMode.rules ms, rule.takesSome false = true

variable {ms : List LineMode} {text part whole : Source} {p q b e lo : Nat}

/-- The end of the line that a position is in. -/
structure IsLineEnd (text : Source) (b e : Nat) : Prop where
  le : b ≤ e
  le_size : e ≤ text.size
  ends : Assertion.lineEnd.holds { text } e = true
  least : ∀ q, b ≤ q → q < e → Assertion.lineEnd.holds { text } q = false

lemma IsLineEnd.lines (h : IsLineEnd part b e) (hlines : Lines part whole lo) :
    IsLineEnd whole (lo + b) (lo + e) where
  le := Nat.add_le_add_left h.le lo
  le_size := Nat.le_trans (Nat.add_le_add_left h.le_size lo) hlines.fits
  ends := by rw [hlines.holds h.le_size (.inr rfl),h.ends]
  least q hq hlt := by
    obtain ⟨k,rfl⟩ := Nat.exists_eq_add_of_le (Nat.le_trans (Nat.le_add_right lo b) hq)
    have hsize := h.le_size
    rw [hlines.holds (by omega) (.inr rfl),h.least k (by omega) (by omega)]

/-- Every line ends, at the latest with the text. -/
lemma exists_isLineEnd (hb : b ≤ text.size) : ∃ e, IsLineEnd text b e := by
  induction hn : text.size - b generalizing b with
  | zero =>
    have hsize : b = text.size := by omega
    exact ⟨b,Nat.le_refl b,hb,by simp [Assertion.holds,Haystack.size,hsize],fun q hq hlt => by omega⟩
  | succ n ih =>
    by_cases hends : Assertion.lineEnd.holds { text } b = true
    · exact ⟨b,Nat.le_refl b,hb,hends,fun q hq hlt => by omega⟩
    · obtain ⟨e,he⟩ := ih (b := b + 1) (by omega) (by omega)
      refine ⟨e,Nat.le_trans (Nat.le_succ b) he.le,he.le_size,he.ends,fun q hq hlt => ?_⟩
      rcases Nat.eq_or_lt_of_le hq with rfl | hq
      · exact Bool.eq_false_iff.mpr hends
      · exact he.least q hq hlt

/-- Where a mode closes that has begun up to a position. -/
def LineMode.StopsAt (mode : LineMode) (text : Source) (b e : Nat) : Prop :=
  if mode.toLineEnd then IsLineEnd text b e else e = b

namespace LineMode.StopsAt

variable {mode : LineMode}

lemma bounds (h : mode.StopsAt text b e) (hb : b ≤ text.size) : b ≤ e ∧ e ≤ text.size := by
  unfold StopsAt at h
  split at h
  · exact ⟨h.le,h.le_size⟩
  · exact ⟨Nat.le_of_eq h.symm,h ▸ hb⟩

lemma lines (h : mode.StopsAt part b e) (hlines : Lines part whole lo) :
    mode.StopsAt whole (lo + b) (lo + e) := by
  by_cases htoLineEnd : mode.toLineEnd = true
  · rw [StopsAt,if_pos htoLineEnd] at h ⊢
    exact h.lines hlines
  · rw [StopsAt,if_neg htoLineEnd] at h ⊢
    rw [h]

end LineMode.StopsAt

lemma LineMode.exists_stopsAt (mode : LineMode) (hb : b ≤ text.size) : ∃ e, mode.StopsAt text b e := by
  by_cases htoLineEnd : mode.toLineEnd = true
  · simpa only [StopsAt,htoLineEnd,if_true] using exists_isLineEnd hb
  · exact ⟨b,(if_neg htoLineEnd).mpr rfl⟩

/-- A part of a line in its mode: where it starts, how far its begin goes, and where it stops. -/
structure Mark where
  mode : LineMode
  start : Nat
  opened : Nat
  stop : Nat

namespace Mark

def shift (m : Mark) (lo : Nat) : Mark :=
  { m with start := lo + m.start, opened := lo + m.opened, stop := lo + m.stop }

@[simp] lemma shift_mode (m : Mark) (lo : Nat) : (m.shift lo).mode = m.mode := rfl
@[simp] lemma shift_start (m : Mark) (lo : Nat) : (m.shift lo).start = lo + m.start := rfl
@[simp] lemma shift_stop (m : Mark) (lo : Nat) : (m.shift lo).stop = lo + m.stop := rfl

/-- A mark is the first one that a scan comes to from a position on. -/
structure Comes (ms : List LineMode) (text : Source) (p : Nat) (m : Mark) : Prop where
  fires : ∃ i, ms[i]? = some m.mode ∧
    Fires (LineMode.rules ms) false text p 0 ⟨m.start,m.opened,.begins (i + 1),i⟩
  stops : m.mode.StopsAt text m.opened m.stop

variable {m : Mark}

/-- Where a mark lies. -/
structure Within (text : Source) (p : Nat) (m : Mark) : Prop where
  le_start : p ≤ m.start
  start_lt : m.start < m.opened
  opened_le : m.opened ≤ m.stop
  stop_le : m.stop ≤ text.size

lemma Comes.within (h : m.Comes ms text p) (htakes : ∀ rule ∈ LineMode.rules ms, rule.takesSome false = true) :
    m.Within text p := by
  obtain ⟨⟨i,-,hfires⟩,hstops⟩ := h
  obtain ⟨rule,hrule,hend⟩ := Option.bind_eq_some_iff.mp hfires.stop
  obtain ⟨hlt,hle⟩ :=
    Rule.end?_bounds (htakes rule (List.mem_of_getElem? hrule)) hfires.start_le_size hend
  exact ⟨hfires.start_le,hlt,(hstops.bounds hle).1,(hstops.bounds hle).2⟩

/-- A mark in some lines is one in the text, if nothing else comes before. -/
lemma Comes.lines (hstays : ∀ rule ∈ LineMode.rules ms, rule.staysInLine false = true)
    (hlines : Lines part whole lo) {k : Nat} (h : m.Comes ms part k) (hp : p ≤ lo + k)
    (hbefore : ∀ q, p ≤ q → q < lo + k → ∀ i, endAt? (LineMode.rules ms) false whole i q = none) :
    (m.shift lo).Comes ms whole p := by
  obtain ⟨⟨i,hi,hfires⟩,hstops⟩ := h
  exact ⟨⟨i,hi,hfires.lines hstays hlines hp (fun q hq hlt i _ => hbefore q hq hlt i)⟩,
    hstops.lines hlines⟩

end Mark

/-- All marks from a position on. -/
inductive MarkedFrom (ms : List LineMode) (text : Source) : Nat → List Mark → Prop where
  | done {p : Nat} (h : IsFirst (LineMode.rules ms) false text p 0 none) : MarkedFrom ms text p []
  | mark {p : Nat} {m : Mark} {marks : List Mark} (h : m.Comes ms text p)
      (hrest : MarkedFrom ms text m.stop marks) : MarkedFrom ms text p (m :: marks)

namespace MarkedFrom

variable {marks marks' : List Mark} {k : Nat}

/-- The marks of the last lines of a text. -/
lemma lines (hstays : ∀ rule ∈ LineMode.rules ms, rule.staysInLine false = true)
    (hlines : Lines part whole lo) (hlast : lo + part.size = whole.size) (h : MarkedFrom ms part k marks)
    (hp : p ≤ lo + k)
    (hbefore : ∀ q, p ≤ q → q < lo + k → ∀ i, endAt? (LineMode.rules ms) false whole i q = none) :
    MarkedFrom ms whole p (marks.map (·.shift lo)) := by
  induction h generalizing p with
  | @done k hnone =>
    refine .done (fun q hq hle i _ => ?_)
    rcases Nat.lt_or_ge q (lo + k) with hlt | hge
    · exact hbefore q hq hlt i
    · exact hnone.lines_none hstays hlines hge (hlast ▸ hle) (Nat.zero_le i)
  | @mark k m marks hm _ ih =>
    exact .mark (hm.lines hstays hlines hp hbefore)
      (ih (Nat.le_refl _) (fun q hq hlt => absurd hlt (Nat.not_lt.mpr hq)))

/-- The marks of a text that comes apart at a line break are those of its two parts. -/
theorem append (hstays : ∀ rule ∈ LineMode.rules ms, rule.staysInLine false = true)
    (htakes : ∀ rule ∈ LineMode.rules ms, rule.takesSome false = true) {front back : Source}
    (hfront : Lines front whole 0) (hback : Lines back whole (front.size + 1))
    (hlast : front.size + 1 + back.size = whole.size) (hp : p ≤ front.size)
    (h : MarkedFrom ms front p marks) (h' : MarkedFrom ms back 0 marks') :
    MarkedFrom ms whole p (marks ++ marks'.map (·.shift (front.size + 1))) := by
  induction h with
  | @done p hnone =>
    refine h'.lines hstays hback hlast (by omega) (fun q hq hlt i => ?_)
    exact hnone.lines_none hstays hfront (by omega) (by omega) (Nat.zero_le i)
  | @mark p m marks hm _ ih =>
    have hshift : m.shift 0 = m := by simp [Mark.shift]
    have hwhole := hm.lines (p := p) hstays hfront (by omega) (fun q hq hlt => by omega)
    rw [hshift] at hwhole
    exact .mark hwhole (ih (hm.within htakes).stop_le)

end MarkedFrom

/-- The rule for the end of a line. -/
lemma end?_lineEnd (hq : q ≤ text.size) : Rule.end? ⟨"$",.ends⟩ false text q =
    if Assertion.lineEnd.holds { text } q then some q else none := by
  have hpattern : Rule.positional? ⟨"$",.ends⟩ false = some (.assert .lineEnd) := by decide +kernel
  rw [Rule.end?_eq_head? hpattern hq]
  simp only [Pattern.ends]
  split
  · rfl
  · rfl

/-- Where a line ends, its end is found. -/
lemma fires_lineEnd (h : IsLineEnd text b e) : Fires [⟨"$",.ends⟩] false text b 0 ⟨e,e,.ends,0⟩ where
  start_le := h.le
  start_le_size := h.le_size
  first_le := Nat.le_refl 0
  kind := rfl
  stop := (end?_lineEnd h.le_size).trans (if_pos h.ends)
  least i _ hi := absurd hi (Nat.not_lt_zero i)
  leftmost q hq hlt i _ := by
    cases i with
    | zero =>
      have hle : q ≤ text.size := Nat.le_trans (Nat.le_of_lt hlt) h.le_size
      refine (end?_lineEnd hle).trans (if_neg ?_)
      rw [h.least q hq hlt]
      exact Bool.false_ne_true
    | succ i => exact endAt?_of_length_le (by simp) q

section Scan

open Assembly

variable {g : Grammar} {t : NodeTable} {mode : LineMode} {i : Nat}

namespace Grammar.MarksLines

lemma top (h : g.MarksLines ms) (hg : g.assemble = .ok t) :
    Outlined false (LineMode.topOutline ms) (t.node rootNode) :=
  h.ignoreCase ▸ outlined_of_assemble hg h.outlines rfl

lemma inner (h : g.MarksLines ms) (hg : g.assemble = .ok t) (hi : ms[i]? = some mode) :
    Outlined false mode.outline (t.node (i + 1)) := by
  have ho : (LineMode.topOutline ms :: ms.map LineMode.outline)[i + 1]? = some mode.outline := by
    rw [List.getElem?_cons_succ,List.getElem?_map,hi]
    rfl
  exact h.ignoreCase ▸ outlined_of_assemble hg h.outlines ho

/-- What is found in the top mode. -/
lemma exists_found (h : g.MarksLines ms) (hg : g.assemble = .ok t) (text : Source) (p : Nat) :
    ∃ found, (t.node rootNode).rules.exec text p 0 = .ok found ∧
      IsFirst (LineMode.rules ms) false text p 0 found :=
  RuleSet.exists_exec_of_plain (h.top hg).rules (.of_isCombinable h.combinable) h.plain p 0

/-- What is found in a mode for a part of a line. -/
lemma exec_inner (h : g.MarksLines ms) (hg : g.assemble = .ok t) (hi : ms[i]? = some mode)
    (hstops : mode.StopsAt text b e) (hb : b ≤ text.size) :
    (t.node (i + 1)).rules.exec text b 0 = .ok (some ⟨e,e,.ends,0⟩) := by
  have hbuild := (h.inner hg hi).rules
  rw [LineMode.outline,LineMode.endPattern] at hbuild
  by_cases htoLineEnd : mode.toLineEnd = true
  · rw [LineMode.StopsAt,if_pos htoLineEnd] at hstops
    rw [if_pos htoLineEnd] at hbuild
    have hc : isCombinable [⟨"$",.ends⟩] false false = true := by decide +kernel
    have hplain : ∀ rule ∈ [(⟨"$",.ends⟩ : Rule)],
        (Regex.compileRule rule.pattern false).toOption.all (·.plain) = true := by decide +kernel
    obtain ⟨found,hexec,hfirst⟩ := RuleSet.exists_exec_of_plain hbuild
      (.of_isCombinable hc) hplain b 0
    have hfires : IsFirst [⟨"$",.ends⟩] false text b 0 (some ⟨e,e,.ends,0⟩) := fires_lineEnd hstops
    rw [hexec,hfirst.unique hfires]
  · rw [LineMode.StopsAt,if_neg htoLineEnd] at hstops
    rw [if_neg htoLineEnd] at hbuild
    rw [hstops]
    exact RuleSet.exec_of_endsEmpty hbuild hb

/-- The end of a mode for a part of a line matches where the mode stops. -/
lemma matchesIn_inner (h : g.MarksLines ms) (hg : g.assemble = .ok t) (hi : ms[i]? = some mode)
    (hstops : mode.StopsAt text b e) (hb : b ≤ text.size) {r : Regex}
    (hr : (t.node (i + 1)).endRegex = some r) : r.matchesIn text e = .ok true := by
  have hrel := (h.inner hg hi).endRegex
  rw [hr,LineMode.outline,LineMode.endPattern] at hrel
  by_cases htoLineEnd : mode.toLineEnd = true
  · rw [LineMode.StopsAt,if_pos htoLineEnd] at hstops
    rw [if_pos htoLineEnd] at hrel
    cases hrel with
    | some hr =>
      have hahead : looksAheadPlainly "$" false = true := by decide +kernel
      rw [matchesIn_of_looksAheadPlainly hahead hr hstops.le_size,end?_lineEnd hstops.le_size,
        if_pos hstops.ends]
      rfl
  · rw [LineMode.StopsAt,if_neg htoLineEnd] at hstops
    rw [if_neg htoLineEnd] at hrel
    cases hrel with
    | some hr => exact Regex.matchesIn_zeroWidth hr (hstops ▸ hb)

/-- The only mode that is open inside the top mode closes where it stops. -/
lemma closing_inner (h : g.MarksLines ms) {env : Scan.Env} (hg : g.assemble = .ok env.table)
    (hi : ms[i]? = some mode) (hstops : mode.StopsAt env.text b e) (hb : b ≤ env.text.size) :
    Scan.closing env e [{ node := i + 1 },.top] = .ok (some [{ node := i + 1 }]) := by
  have hends : Scan.endsAt env { node := i + 1 } e = .ok true := by
    have hrel := (h.inner hg hi).endRegex
    rw [Scan.endsAt,show env.node (i + 1) = env.table.node (i + 1) from rfl]
    cases hr : (env.table.node (i + 1)).endRegex with
    | none =>
      rw [hr] at hrel
      cases hrel
    | some r => exact h.matchesIn_inner hg hi hstops hb hr
  rw [Scan.closing,hends]
  rfl

/-- What fires in the top mode is the begin of a mark. -/
lemma exists_comes (h : g.MarksLines ms) {found : RuleMatch}
    (hfires : Fires (LineMode.rules ms) false text p 0 found) : ∃ m : Mark, m.Comes ms text p := by
  have hkind := hfires.kind
  rw [LineMode.rules,List.getElem?_mapIdx,Option.map_map,Option.map_eq_some_iff] at hkind
  obtain ⟨mode,hi,hkind⟩ := hkind
  have hsize : found.stop ≤ text.size := by
    obtain ⟨rule,hrule,hend⟩ := Option.bind_eq_some_iff.mp hfires.stop
    exact (Rule.end?_bounds (h.takesSome rule (List.mem_of_getElem? hrule)) hfires.start_le_size hend).2
  obtain ⟨e,he⟩ := mode.exists_stopsAt hsize
  refine ⟨⟨mode,found.start,found.stop,e⟩,⟨found.index,hi,?_⟩,he⟩
  obtain ⟨start,stop,kind,index⟩ := found
  obtain rfl : RuleKind.begins (index + 1) = kind := hkind
  exact hfires

/-- Every text has its marks. -/
theorem exists_marks (h : g.MarksLines ms) (hg : g.assemble = .ok t) (text : Source) (hp : p ≤ text.size) :
    ∃ marks, MarkedFrom ms text p marks := by
  induction hn : text.size - p using Nat.strong_induction_on generalizing p with
  | _ n ih =>
    obtain ⟨found,-,hfirst⟩ := h.exists_found hg text p
    cases found with
    | none => exact ⟨[],.done hfirst⟩
    | some found =>
      obtain ⟨m,hm⟩ := h.exists_comes hfirst
      obtain ⟨h1,h2,h3,h4⟩ := hm.within h.takesSome
      obtain ⟨marks,hmarks⟩ := ih (text.size - m.stop) (by omega) h4 rfl
      exact ⟨m :: marks,.mark hm hmarks⟩

end Grammar.MarksLines

namespace Mark

/-- The mark is put into the tree with the text before it. -/
def draw (text : Source) (p : Nat) (m : Mark) (tree : Tree.Builder) : Tree.Builder :=
  (((tree.addText (text.slice p m.start)).openScope m.mode.className).addText
    (text.slice m.start m.stop)).closeScope

end Mark

namespace Scan

variable {env : Env} {s s' s₀ : State} {tree : Tree.Builder} {relevance : Nat} {m : Mark}

/-- Only the top mode is open, and all text up to a position is in the tree. -/
structure AtTop (p : Nat) (tree : Tree.Builder) (relevance : Nat) (s : State) : Prop where
  stack : s.stack = [.top]
  buffer : s.buffer = ""
  position : s.position = p
  tree : s.tree = tree
  relevance : s.relevance = relevance

/-- The mode of a mark is open, and its begin is in the buffer. -/
structure InMark (text : Source) (i : Nat) (m : Mark) (tree : Tree.Builder) (relevance : Nat) (s : State) : Prop where
  stack : s.stack = [{ node := i + 1 },.top]
  buffer : s.buffer = text.slice m.start m.opened
  position : s.position = m.opened
  last : s.last.map RuleMatch.start = some m.start
  tree : s.tree = tree
  relevance : s.relevance = relevance

lemma AtTop.opens (h : g.MarksLines ms) (hg : g.assemble = .ok env.table) (hi : ms[i]? = some m.mode)
    (hfires : Fires (LineMode.rules ms) false env.text p 0 ⟨m.start,m.opened,.begins (i + 1),i⟩)
    (hlt : m.start < m.opened) (hcomes : ComesTo env s₀ 0 s) (htop : AtTop p tree relevance s) :
    ∃ s', ComesTo env s₀ 1 s' ∧ InMark env.text i m
      ((tree.addText (env.text.slice p m.start)).openScope m.mode.className) relevance s' := by
  obtain ⟨hstack,hbuffer,rfl,rfl,rfl⟩ := htop
  have hnode : s.top = rootNode := by rw [State.top,hstack]; rfl
  have hle : s.position ≤ m.start := hfires.start_le
  obtain ⟨found,hexec,hfirst⟩ := h.exists_found hg env.text s.position
  rw [hfirst.unique (show IsFirst _ _ _ _ _ (some _) from hfires),← hnode] at hexec
  have hflush : env.Flushes s.top (s.buffer ++ env.text.slice s.position m.start)
      (·.addText (env.text.slice s.position m.start)) (fun n => n) := by
    rw [hnode,hbuffer,String.empty_append]
    exact flushes_text (h.top hg).keywords (h.top hg).subLanguage _
  obtain ⟨s',hcomes',hopens⟩ : ∃ s', ComesTo env s₀ 1 s' ∧ _ :=
    hcomes.opens hexec rfl (h.inner hg hi) rfl ⟨rfl,rfl,rfl,rfl⟩ (by rw [hstack]; decide) hflush
      (by dsimp only; omega)
  exact ⟨s',hcomes',by rw [hopens.stack,hstack],hopens.buffer,hopens.position,by rw [hopens.last]; rfl,
    hopens.tree,hopens.relevance⟩

lemma InMark.closes (h : g.MarksLines ms) (hg : g.assemble = .ok env.table) (hi : ms[i]? = some m.mode)
    (hstops : m.mode.StopsAt env.text m.opened m.stop) (hwithin : m.Within env.text p)
    (hcomes : ComesTo env s₀ 1 s) (hin : InMark env.text i m tree relevance s) :
    ∃ s', ComesTo env s₀ 0 s' ∧ AtTop m.stop
      (tree.addText (env.text.slice m.start m.stop)).closeScope (addRelevance relevance m.mode.relevance) s' := by
  obtain ⟨hle,hlt,hopened,hsize⟩ := hwithin
  obtain ⟨hstack,hbuffer,hposition,hlast,rfl,rfl⟩ := hin
  have hinner := h.inner hg hi
  have hnode : s.top = i + 1 := by rw [State.top,hstack]; rfl
  have hexec := h.exec_inner hg hi hstops (Nat.le_trans hopened hsize)
  rw [← hnode,← hposition] at hexec
  have hstalls : stalls s.last ⟨m.stop,m.stop,.ends,0⟩ = false := by
    obtain ⟨last,hs,hstart⟩ := Option.map_eq_some_iff.mp hlast
    have hne : (last.start == m.stop) = false := by
      rw [hstart,beq_eq_false_iff_ne]
      omega
    simp only [stalls,hs,hne,Bool.and_false,Bool.false_and]
  have hclosing : closing env m.stop s.stack = .ok (some [{ node := i + 1 }]) := by
    rw [hstack]
    exact h.closing_inner hg hi hstops (Nat.le_trans hopened hsize)
  have htext : s.buffer ++ env.text.slice s.position m.stop ++ env.lexeme ⟨m.stop,m.stop,.ends,0⟩ =
      env.text.slice m.start m.stop := by
    have hlexeme : env.lexeme ⟨m.stop,m.stop,.ends,0⟩ = "" := env.text.slice_self m.stop
    rw [hlexeme,String.append_empty,hbuffer,hposition,
      env.text.slice_append (Nat.le_of_lt hlt) hopened]
  have hflush : env.Flushes s.top (s.buffer ++ env.text.slice s.position m.stop ++
      env.lexeme ⟨m.stop,m.stop,.ends,0⟩) (·.addText (env.text.slice m.start m.stop)) (fun n => n) := by
    rw [htext,hnode]
    exact flushes_text hinner.keywords hinner.subLanguage _
  replace hstack : s.stack = { node := i + 1 } :: [] ++ [.top] := hstack
  obtain ⟨s',hcomes',hcloses⟩ : ∃ s', ComesTo env s₀ 0 s' ∧ _ :=
    hcomes.closes hexec rfl hstalls hstack hclosing hinner .nil
      (fun o' ho' => by rw [List.mem_singleton.mp ho']; rfl) rfl rfl hflush (by dsimp only; omega)
  exact ⟨s',hcomes',hcloses.stack,hcloses.buffer,hcloses.position,hcloses.tree,hcloses.relevance⟩

/-- A scan takes two steps for a mark: the one in which its mode opens, and the one in which it closes. -/
lemma AtTop.mark (h : g.MarksLines ms) (hg : g.assemble = .ok env.table) (hm : m.Comes ms env.text p)
    (hcomes : ComesTo env s₀ 0 s) (htop : AtTop p tree relevance s) : ∃ s', ComesTo env s₀ 0 s' ∧
      AtTop m.stop (m.draw env.text p tree) (addRelevance relevance m.mode.relevance) s' := by
  have hwithin := hm.within h.takesSome
  obtain ⟨⟨i,hi,hfires⟩,hstops⟩ := hm
  obtain ⟨s₁,hcomes₁,hin⟩ := htop.opens h hg hi hfires hwithin.start_lt hcomes
  exact hin.closes h hg hi hstops hwithin hcomes₁

/-- The tree of a text by its marks. -/
def drawFrom (text : Source) : Nat → List Mark → Tree.Builder → Tree.Builder
  | p, [], tree => tree.addText (text.slice p text.size)
  | p, m :: marks, tree => drawFrom text m.stop marks (m.draw text p tree)

/-- A run draws the marks one after the other. -/
theorem AtTop.run_eq (h : g.MarksLines ms) (hg : g.assemble = .ok env.table)
    (h₀ : s₀.position ≤ env.text.size) {marks : List Mark} (hmarks : MarkedFrom ms env.text p marks)
    (hcomes : ComesTo env s₀ 0 s) (htop : AtTop p tree relevance s) :
    ∃ s', run env s₀ = (.ok (),s') ∧ s'.stack = [.top] ∧ s'.tree = drawFrom env.text p marks tree ∧
      s'.relevance = marks.foldl (fun r m => addRelevance r m.mode.relevance) relevance := by
  induction hmarks generalizing s tree relevance with
  | mark hm _ ih =>
    obtain ⟨s₁,hcomes₁,htop₁⟩ := htop.mark h hg hm hcomes
    exact ih hcomes₁ htop₁
  | @done p hnone =>
    obtain ⟨hstack,hbuffer,rfl,rfl,rfl⟩ := htop
    have hnode : s.top = rootNode := by rw [State.top,hstack]; rfl
    obtain ⟨found,hexec,hfirst⟩ := h.exists_found hg env.text s.position
    rw [hfirst.unique hnone] at hexec
    have hrules : (s.ruleSet env).exec env.text s.position s.firstRule = .ok none := by
      rw [State.ruleSet,hnode,State.firstRule,hcomes.1]
      exact hexec
    obtain ⟨resumeAt,hrun⟩ := hcomes.run_eq h₀ hrules
    have hflush : env.Flushes s.top (s.buffer ++ env.text.slice s.position env.text.size)
        (·.addText (env.text.slice s.position env.text.size)) (fun n => n) := by
      rw [hnode,hbuffer,String.empty_append]
      exact flushes_text (h.top hg).keywords (h.top hg).subLanguage _
    obtain ⟨_,s',hfinish,rfl⟩ := (finish_succeeds (s := { s with resumeAt, stays := false }) hflush).exists_run
    rw [hrun,hfinish]
    exact ⟨_,rfl,hstack,rfl,rfl⟩

end Scan

end Scan

end Highlight
