import Highlight.Proofs.Rules.ZeroWidth
import Highlight.Proofs.Scan.Outlined
import Highlight.Proofs.Tree.Scopes

/-!
The scopes that a scan draws. Between its scopes the tree has none that is open. Inside of one, the text of
the scope is partly in the tree and partly in the buffer.
-/
namespace Highlight.Scan

open Rules Assembly
open Highlight.Tree (Builder scopesOf)

/-- Flushing a buffer adds some scopes to the tree, and leaves none open. -/
def Env.FlushesAs (env : Env) (id : NodeId) (buffer : String) (new : List (Option String × String)) : Prop :=
  ∃ f g, env.Flushes id buffer f g ∧ ∀ b : Builder, (f b).enclosing = b.enclosing ∧ (f b).scopes = b.scopes ++ new

/-- A mode that has nothing but rules, its end and perhaps a class. -/
structure PlainMode (o : Outline) : Prop where
  switches : o.switches = Switches.unset.resolve
  keywords : o.keywords = none
  subLanguage : o.subLanguage = none
  guarded : o.guarded = false
  starts : o.starts = none

/-- A mode that ends everywhere. -/
structure EndsAtOnce (o : Outline) : Prop where
  endPattern : o.endPattern = some zeroWidth
  rules : o.rules = [⟨zeroWidth,.ends⟩]

/-- No scope is open in the tree. -/
structure Between (frames : List Frame) (scopes : List (Option String × String)) (s : State) : Prop where
  stack : s.stack = frames
  enclosing : s.tree.enclosing = []
  scopes : s.tree.scopes = scopes

/-- The only open scope in the tree has a text so far. -/
structure Inside (frames : List Frame) (scopes : List (Option String × String)) (kind text : String)
    (s : State) : Prop where
  stack : s.stack = frames
  enclosing : ∃ before, s.tree.enclosing = [(kind,before)] ∧ scopesOf before.reverse = scopes
  inner : s.tree.scopes = []
  text : s.tree.ownText ++ s.buffer = text

variable {env : Env} {s s₀ : State} {m : RuleMatch} {id : NodeId} {o : Outline} {os : List Outline} {ic : Bool}
variable {spare spare' : Nat} {closed frames rest : List Frame} {frame : Frame} {kind text : String}
variable {scopes new : List (Option String × String)}

lemma slice_append_lexeme (hstart : s.position ≤ m.start) (hstop : m.start ≤ m.stop) :
    env.text.slice s.position m.start ++ env.lexeme m = env.text.slice s.position m.stop :=
  env.text.slice_append hstart hstop

lemma stalls_of_lt (last : Option RuleMatch) (h : m.start < m.stop) : stalls last m = false := by
  have hempty : m.isEmpty = false := by
    rw [RuleMatch.isEmpty,beq_eq_false_iff_ne]
    omega
  unfold stalls
  split
  · rw [hempty,Bool.and_false]
  · rfl

lemma stalls_of_start_ne {last : RuleMatch} (h : last.start ≠ m.start) : stalls (some last) m = false := by
  have hne : (last.start == m.start) = false := beq_eq_false_iff_ne.mpr h
  simp only [stalls,hne,Bool.and_false,Bool.false_and]

lemma EndsAtOnce.endsAt (h : EndsAtOnce o) (ho : Outlined ic o (env.node id)) {position : Nat}
    (hposition : position ≤ env.text.size) : endsAt env { node := id } position = .ok true := by
  have hrel := ho.endRegex
  rw [h.endPattern] at hrel
  cases hr : (env.node id).endRegex with
  | none =>
    rw [hr] at hrel
    cases hrel
  | some r =>
    rw [hr] at hrel
    cases hrel with
    | some hr' =>
      rw [Scan.endsAt,hr]
      exact Regex.matchesIn_zeroWidth hr' hposition

/-- A mode that ends everywhere closes where its begin ends. -/
lemma EndsAtOnce.closes (h : EndsAtOnce o) (ho : Outlined ic o (env.node id)) (htop : s.top = id)
    (hlast : s.last = some m) (hlt : m.start < s.position) (hsize : s.position ≤ env.text.size) :
    (env.node s.top).rules.exec env.text s.position 0 = .ok (some ⟨s.position,s.position,.ends,0⟩) ∧
      stalls s.last ⟨s.position,s.position,.ends,0⟩ = false ∧
        Scan.endsAt env { node := id } s.position = .ok true := by
  refine ⟨?_,?_,h.endsAt ho hsize⟩
  · have hrules := ho.rules
    rw [h.rules] at hrules
    rw [htop]
    exact RuleSet.exec_of_endsEmpty hrules hsize
  · rw [hlast]
    exact stalls_of_start_ne (Nat.ne_of_lt hlt)

/-- A mode closes alone where its own end matches. -/
lemma closing_own {position : Nat} (hends : endsAt env frame position = .ok true)
    (hparent : (env.switches frame.node).endsParent = false) :
    closing env position (frame :: frames) = .ok (some [frame]) := by
  have hwiden : widen env frame frames = [frame] := by
    unfold widen
    split
    · rw [hparent,if_neg Bool.false_ne_true]
    · rfl
  rw [closing,hends,hwiden]
  rfl

/-- A mode that ends with its parent closes with it. -/
lemma closing_withParent {position : Nat} (hends : endsAt env frame position = .ok false)
    (hwith : (env.switches frame.node).endsWithParent = true)
    (hparent : closing env position frames = .ok (some closed)) :
    closing env position (frame :: frames) = .ok (some (frame :: closed)) := by
  rw [closing,hends,hwith,hparent]
  rfl

/-- A mode without class opens between the scopes. -/
lemma Between.opens (h : Between frames scopes s) (hcomes : ComesTo env s₀ spare s)
    (hexec : (env.node s.top).rules.exec env.text s.position 0 = .ok (some m)) (hkind : m.kind = .begins id)
    (ho : Outlined ic o (env.node id)) (hclass : o.className = none) (hguard : o.guarded = false)
    (hsw : PlainBegin o.switches) (hlen : frames.length ≤ maxOpenModes)
    (hflush : env.FlushesAs s.top (s.buffer ++ env.text.slice s.position m.start) new)
    (hspare : spare' + 2 * s.position + 1 ≤ spare + 2 * m.stop) :
    ∃ s', ComesTo env s₀ spare' s' ∧ Between ({ node := id } :: frames) (scopes ++ new) s' ∧
      s'.buffer = env.lexeme m ∧ s'.position = m.stop := by
  obtain ⟨f,g,hflush,htree⟩ := hflush
  obtain ⟨s',hcomes',hopens⟩ :=
    hcomes.opens hexec hkind ho hguard hsw (h.stack ▸ hlen) hflush hspare
  have htree' : s'.tree = f s.tree := by rw [hopens.tree,hclass,Option.elim_none]
  refine ⟨s',hcomes',⟨by rw [hopens.stack,h.stack],?_,?_⟩,hopens.buffer,hopens.position⟩
  · rw [htree',(htree _).1,h.enclosing]
  · rw [htree',(htree _).2,h.scopes]

lemma foldl_closeTree (h : ∀ o ∈ os, o.className = none) (b : Builder) :
    os.foldl (fun b o => o.closeTree b) b = b := by
  induction os with
  | nil => rfl
  | cons o os ih =>
    have hclass := h o List.mem_cons_self
    rw [List.foldl_cons,Outline.closeTree,hclass]
    exact ih (fun o' ho' => h o' (List.mem_cons_of_mem _ ho'))

/-- Modes without class close between the scopes. -/
lemma Between.closes (h : Between (frame :: closed ++ rest) scopes s) (hcomes : ComesTo env s₀ spare s)
    (hexec : (env.node s.top).rules.exec env.text s.position 0 = .ok (some m)) (hkind : m.kind = .ends)
    (hne : m.start < m.stop) (hclosing : closing env m.start (frame :: closed ++ rest) = .ok (some (frame :: closed)))
    (ho : Outlined ic o (env.node frame.node))
    (hos : List.Forall₂ (fun frame o => Outlined ic o (env.node frame.node)) closed os)
    (hclass : ∀ o' ∈ o :: os, o'.className = none) (hstarts : ∀ o' ∈ o :: os, o'.starts = none)
    (hskip : o.switches.skip = false) (hreturn : o.switches.returnEnd = false)
    (hflush : env.FlushesAs s.top (s.buffer ++ env.text.slice s.position m.start ++
      if o.switches.excludeEnd then "" else env.lexeme m) new)
    (hspare : spare' + 2 * s.position + 1 ≤ spare + 2 * m.stop) :
    ∃ s', ComesTo env s₀ spare' s' ∧ Between rest (scopes ++ new) s' ∧
      s'.buffer = (if o.switches.excludeEnd then env.lexeme m else "") ∧ s'.position = m.stop := by
  obtain ⟨f,g,hflush,htree⟩ := hflush
  obtain ⟨s',hcomes',hcloses⟩ := hcomes.closes hexec hkind (stalls_of_lt s.last hne) h.stack
    (h.stack ▸ hclosing) ho hos hstarts hskip hreturn hflush hspare
  have htree' : s'.tree = f s.tree := by rw [hcloses.tree,foldl_closeTree hclass]
  refine ⟨s',hcomes',⟨hcloses.stack,?_,?_⟩,hcloses.buffer,hcloses.position⟩
  · rw [htree',(htree _).1,h.enclosing]
  · rw [htree',(htree _).2,h.scopes]

/-- A scope opens with a mode that has a class. -/
lemma Between.opensScope (h : Between frames scopes s) (hcomes : ComesTo env s₀ spare s)
    (hexec : (env.node s.top).rules.exec env.text s.position 0 = .ok (some m)) (hkind : m.kind = .begins id)
    (ho : Outlined ic o (env.node id)) (hclass : o.className = some kind) (hguard : o.guarded = false)
    (hsw : PlainBegin o.switches) (hlen : frames.length ≤ maxOpenModes)
    (hflush : env.FlushesAs s.top (s.buffer ++ env.text.slice s.position m.start) new)
    (hspare : spare' + 2 * s.position + 1 ≤ spare + 2 * m.stop) :
    ∃ s', ComesTo env s₀ spare' s' ∧ Inside ({ node := id } :: frames) (scopes ++ new) kind (env.lexeme m) s' ∧
      s'.position = m.stop ∧ s'.last = some m := by
  obtain ⟨f,g,hflush,htree⟩ := hflush
  obtain ⟨s',hcomes',hopens⟩ :=
    hcomes.opens hexec hkind ho hguard hsw (h.stack ▸ hlen) hflush hspare
  have htree' : s'.tree = (f s.tree).openScope kind := by rw [hopens.tree,hclass,Option.elim_some]
  refine ⟨s',hcomes',⟨by rw [hopens.stack,h.stack],⟨(f s.tree).current,?_,?_⟩,?_,?_⟩,hopens.position,hopens.last⟩
  · rw [htree',Builder.openScope,(htree _).1,h.enclosing]
  · rw [← h.scopes]
    exact (htree s.tree).2
  · rw [htree']
    rfl
  · rw [htree',hopens.buffer]
    exact String.empty_append

lemma PlainMode.plainBegin (h : PlainMode o) : PlainBegin o.switches := by
  rw [h.switches]
  exact ⟨rfl,rfl,rfl,rfl⟩

lemma PlainMode.flushes_text (h : PlainMode o) (ho : Outlined ic o (env.node id)) (buffer : String) :
    env.Flushes id buffer (·.addText buffer) (fun n => n) :=
  Scan.flushes_text (ho.keywords.trans (by rw [h.keywords]; rfl)) (ho.subLanguage.trans h.subLanguage) buffer

/-- A mode without class opens in a scope. -/
lemma Inside.opens {o' : Outline} (h : Inside frames scopes kind text s) (hcomes : ComesTo env s₀ spare s)
    (hexec : (env.node s.top).rules.exec env.text s.position 0 = .ok (some m)) (hkind : m.kind = .begins id)
    (htop : Outlined ic o' (env.node s.top)) (hplain' : PlainMode o')
    (ho : Outlined ic o (env.node id)) (hplain : PlainMode o) (hclass : o.className = none)
    (hlen : frames.length ≤ maxOpenModes)
    (hspare : spare' + 2 * s.position + 1 ≤ spare + 2 * m.stop) :
    ∃ s', ComesTo env s₀ spare' s' ∧
      Inside ({ node := id } :: frames) scopes kind (text ++ env.text.slice s.position m.stop) s' ∧
      s'.position = m.stop ∧ s'.last = some m := by
  obtain ⟨hstart,hstop,-⟩ := RuleSet.exec_within hexec
  obtain ⟨s',hcomes',hopens⟩ := hcomes.opens hexec hkind ho hplain.guarded hplain.plainBegin (h.stack ▸ hlen)
    (hplain'.flushes_text htop _) hspare
  have htree' : s'.tree = s.tree.addText (s.buffer ++ env.text.slice s.position m.start) := by
    rw [hopens.tree,hclass,Option.elim_none]
  refine ⟨s',hcomes',⟨by rw [hopens.stack,h.stack],?_,?_,?_⟩,hopens.position,hopens.last⟩
  · rw [htree',Builder.enclosing_addText]
    exact h.enclosing
  · rw [htree',Builder.scopes_addText,h.inner]
  · rw [htree',Builder.ownText_addText,hopens.buffer,← h.text,← slice_append_lexeme hstart hstop]
    simp only [String.append_assoc]

/-- What the scan takes in when one mode closes in a scope. -/
lemma Inside.closes_alone (h : Inside (frame :: frames) scopes kind text s) (hcomes : ComesTo env s₀ spare s)
    (hexec : (env.node s.top).rules.exec env.text s.position 0 = .ok (some m)) (hkind : m.kind = .ends)
    (hstalls : stalls s.last m = false) (hends : endsAt env frame m.start = .ok true)
    (ho : Outlined ic o (env.node frame.node)) (hplain : PlainMode o)
    (hspare : spare' + 2 * s.position + 1 ≤ spare + 2 * m.stop) :
    ∃ s', ComesTo env s₀ spare' s' ∧ s'.stack = frames ∧
      s'.tree = o.closeTree (s.tree.addText (s.buffer ++ env.text.slice s.position m.stop)) ∧
      s'.buffer = "" ∧ s'.position = m.stop := by
  obtain ⟨hstart,hstop,-⟩ := RuleSet.exec_within hexec
  have htop : s.top = frame.node := by rw [State.top,h.stack]; rfl
  have hparent : (env.switches frame.node).endsParent = false := by
    rw [show env.switches frame.node = o.switches from ho.switches,hplain.switches]
    rfl
  have hstack : s.stack = frame :: [] ++ frames := h.stack
  have hflush : env.Flushes s.top (s.buffer ++ env.text.slice s.position m.start ++
      if o.switches.excludeEnd then "" else env.lexeme m)
      (·.addText (s.buffer ++ env.text.slice s.position m.stop)) (fun n => n) := by
    rw [hplain.switches,← slice_append_lexeme hstart hstop,← String.append_assoc,htop]
    exact hplain.flushes_text ho _
  have hexclude : o.switches.excludeEnd = false := by rw [hplain.switches]; rfl
  obtain ⟨s',hcomes',hcloses⟩ := hcomes.closes hexec hkind hstalls hstack
    (by rw [h.stack]; exact closing_own hends hparent) ho .nil
    (fun o' ho' => by rw [List.mem_singleton.mp ho']; exact hplain.starts) (by rw [hplain.switches]; rfl)
    (by rw [hplain.switches]; rfl) hflush hspare
  refine ⟨s',hcomes',hcloses.stack,hcloses.tree,?_,hcloses.position⟩
  rw [hcloses.buffer,hexclude,if_neg Bool.false_ne_true]

/-- A mode without class closes in a scope. -/
lemma Inside.closes (h : Inside (frame :: frames) scopes kind text s) (hcomes : ComesTo env s₀ spare s)
    (hexec : (env.node s.top).rules.exec env.text s.position 0 = .ok (some m)) (hkind : m.kind = .ends)
    (hstalls : stalls s.last m = false) (hends : endsAt env frame m.start = .ok true)
    (ho : Outlined ic o (env.node frame.node)) (hplain : PlainMode o) (hclass : o.className = none)
    (hspare : spare' + 2 * s.position + 1 ≤ spare + 2 * m.stop) :
    ∃ s', ComesTo env s₀ spare' s' ∧ Inside frames scopes kind (text ++ env.text.slice s.position m.stop) s' ∧
      s'.position = m.stop := by
  obtain ⟨s',hcomes',hstack,htree,hbuffer,hposition⟩ :=
    h.closes_alone hcomes hexec hkind hstalls hends ho hplain hspare
  rw [Outline.closeTree,hclass] at htree
  refine ⟨s',hcomes',⟨hstack,?_,?_,?_⟩,hposition⟩
  · rw [htree]
    simpa using h.enclosing
  · rw [htree]
    simpa using h.inner
  · rw [htree,hbuffer,String.append_empty,← h.text]
    simp [String.append_assoc]

/-- A scope closes with its mode. -/
lemma Inside.closesScope (h : Inside (frame :: frames) scopes kind text s) (hcomes : ComesTo env s₀ spare s)
    (hexec : (env.node s.top).rules.exec env.text s.position 0 = .ok (some m)) (hkind : m.kind = .ends)
    (hstalls : stalls s.last m = false) (hends : endsAt env frame m.start = .ok true)
    (ho : Outlined ic o (env.node frame.node)) (hplain : PlainMode o) (hclass : o.className.isSome)
    (hspare : spare' + 2 * s.position + 1 ≤ spare + 2 * m.stop) :
    ∃ s', ComesTo env s₀ spare' s' ∧
      Between frames (scopes ++ [(some kind,text ++ env.text.slice s.position m.stop)]) s' ∧
      s'.buffer = "" ∧ s'.position = m.stop := by
  obtain ⟨s',hcomes',hstack,htree,hbuffer,hposition⟩ :=
    h.closes_alone hcomes hexec hkind hstalls hends ho hplain hspare
  rw [Outline.closeTree,if_pos hclass] at htree
  obtain ⟨before,henclosing,hscopes⟩ := h.enclosing
  have hadded : (s.tree.addText (s.buffer ++ env.text.slice s.position m.stop)).enclosing = [(kind,before)] := by
    rw [Builder.enclosing_addText,henclosing]
  obtain ⟨hrest,hclosed⟩ := Builder.scopes_closeScope hadded
  refine ⟨s',hcomes',⟨hstack,by rw [htree,hrest],?_⟩,hbuffer,hposition⟩
  rw [htree,hclosed,hscopes,Builder.ownText_addText,Builder.scopes_addText,h.inner,← h.text]
  simp only [String.append_assoc]

end Highlight.Scan
