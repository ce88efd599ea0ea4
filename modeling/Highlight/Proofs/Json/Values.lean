import Highlight.Proofs.Assembly.Terminator
import Highlight.Proofs.Json.Steps

/-!
The values in arrays and objects. A mode for one value closes at the next comma alone, and at the end of its
container together with that.
-/
namespace Highlight.JsonText

open Rules Regex Assembly Scan

variable {env : Env} {p q stop spare : Nat} {s₀ : State} {frames : List Frame} {id : NodeId}
variable {scopes new : List (Option String × String)} {cs : List Char} {d : Char} {text : Source} {x : Holder}

lemma Arrives.mono {spare' : Nat} (h : Arrives env s₀ spare frames scopes p) (hle : spare' ≤ spare) :
    Arrives env s₀ spare' frames scopes p := by
  obtain ⟨s,cs,⟨hstays,n,hafter,hn⟩,hs⟩ := h
  exact ⟨s,cs,⟨hstays,n,hafter,by omega⟩,hs⟩

/-- A container of values: its node with the outline of that, the mode for one of them, and what closes it. -/
structure Container where
  node : NodeId
  outline : Outline
  holder : Holder
  close : Char
  closePattern : String

namespace Container

def object : Container := ⟨objectNode,objectOutline,.member,'\x7d',"\\\x7d"⟩
def array : Container := ⟨arrayNode,arrayOutline,.element,']',"\\]"⟩
def all : List Container := [object,array]

lemma object_mem : object ∈ all := by simp [all]
lemma array_mem : array ∈ all := by simp [all]

/-- The open modes after a character that closes the mode for a value. -/
def after (x : Container) (d : Char) (frames : List Frame) : List Frame :=
  if d = ',' then { node := x.node } :: frames else frames

variable {x : Container}

lemma eq_or_eq (hx : x ∈ all) : x = object ∨ x = array := by simpa [all] using hx

lemma holder_mem (hx : x ∈ all) : x.holder ∈ [Holder.member,.element] := by
  rcases eq_or_eq hx with rfl | rfl <;> simp [object,array]

lemma plainMode (hx : x ∈ all) : PlainMode x.outline := by
  rcases eq_or_eq hx with rfl | rfl <;> exact ⟨rfl,rfl,rfl,rfl,rfl⟩

lemma className_eq_none (hx : x ∈ all) : x.outline.className = none := by
  rcases eq_or_eq hx with rfl | rfl <;> rfl

lemma wordless_of_mem (hx : x ∈ all) : ∀ d ∈ [',',x.close], wordless [d] = true := by
  rcases eq_or_eq hx with rfl | rfl <;> exact forall_of_all (by decide)

lemma closes_mem (hx : x ∈ all) : (x.closePattern,x.close) ∈ endChars ∧
    x.outline.endPattern = some x.closePattern := by
  rcases eq_or_eq hx with rfl | rfl <;> decide

lemma finds (hx : x ∈ all) : ∀ d ∈ [',',x.close], x.holder.Finds d 6 := by
  rcases eq_or_eq hx with rfl | rfl <;> exact forall_of_all (by decide +kernel)

lemma rules_holder (hx : x ∈ all) : x.holder.rules = (holderOutline x.closePattern).rules ∧
    x.holder.last.kind = .ends := by
  rcases eq_or_eq hx with rfl | rfl <;> exact ⟨rfl,rfl⟩

lemma follows (hx : x ∈ all) : ∀ d ∈ [',',x.close], some d ∈ followers := by
  rcases eq_or_eq hx with rfl | rfl <;> exact forall_of_all (by decide)

section Steps

variable (ht : Grammar.Bundled.json.assemble = .ok env.table) (hx : x ∈ all)
include ht hx

lemma outlined : Outlined false x.outline (env.node x.node) := by
  rcases eq_or_eq hx with rfl | rfl <;> exact outlined_of_json ht rfl

lemma outlined_holder : Outlined false (holderOutline x.closePattern) (env.node x.holder.node) := by
  rcases eq_or_eq hx with rfl | rfl <;> exact outlined_of_json ht rfl

/-- What a comma or the end of the container closes. -/
lemma closing (hq : env.text[q]? = some d) (hd : d ∈ [',',x.close]) :
    ∃ closed, Scan.closing env q ({ node := x.holder.node } :: { node := x.node } :: frames) =
        .ok (some ({ node := x.holder.node } :: closed)) ∧
      { node := x.node } :: frames = closed ++ x.after d frames ∧
      List.Forall₂ (fun frame o => Outlined false o (env.node frame.node)) closed
        (if d = ',' then [] else [x.outline]) := by
  have hsize : q ≤ env.text.size := Nat.le_of_lt (Array.getElem?_eq_some_iff.mp hq).1
  have ho := outlined ht hx
  have hholder := outlined_holder ht hx
  have hown : endsAt env { node := x.holder.node } q = .ok (decide (d = ',')) := by
    have hmem : (",",',') ∈ endChars := by decide
    rw [endsAt_char hholder rfl hmem hsize,hq]
    simp
  by_cases hcomma : d = ','
  · refine ⟨[],?_,?_,?_⟩
    · refine closing_own (by rw [hown,hcomma]; rfl) ?_
      rw [show env.switches x.holder.node = _ from hholder.switches]
      rfl
    · simp [after,hcomma]
    · rw [if_pos hcomma]
      exact .nil
  · have hclose : d = x.close := by simpa [hcomma] using hd
    refine ⟨[{ node := x.node }],?_,?_,?_⟩
    · refine closing_withParent (by rw [hown,decide_eq_false hcomma]) ?_ (closing_own ?_ ?_)
      · rw [show env.switches x.holder.node = _ from hholder.switches]
        rfl
      · obtain ⟨hmem,hpattern⟩ := closes_mem hx
        rw [endsAt_char ho hpattern hmem hsize,hq,hclose]
        simp
      · rw [show env.switches x.node = _ from ho.switches,(plainMode hx).switches]
        rfl
    · simp [after,hcomma]
    · rw [if_neg hcomma]
      exact .cons ho .nil

/-- The mode for a value closes. -/
lemma closes (h : Arrives env s₀ spare ({ node := x.holder.node } :: { node := x.node } :: frames) scopes p)
    (hquiet : x.holder.Quiet env.text p q) (hq : q = p + cs.length) (hspells : env.text.Spells p (cs ++ [d]))
    (hfits : x.holder.FitsBudget cs.length) (hd : d ∈ [',',x.close])
    (hflush : ∀ before, wordless before = true →
      env.FlushesAs x.holder.node (String.ofList (before ++ cs)) new) :
    Arrives env s₀ 1 (x.after d frames) (scopes ++ new) (q + 1) := by
  obtain ⟨s,before,hcomes,hbetween,hbuffer,hbefore,rfl⟩ := h
  have htop : s.top = x.holder.node := by rw [State.top,hbetween.stack]; rfl
  have hchar : env.text[q]? = some d := hq ▸ hspells.right.head
  have hholder := outlined_holder ht hx
  obtain ⟨hrules,hkind⟩ := rules_holder hx
  have hexec : (env.node s.top).rules.exec env.text s.position 0 = .ok (some ⟨q,q + 1,x.holder.last.kind,6⟩) := by
    rw [htop]
    refine hquiet.exec_char (List.mem_cons_of_mem _ (holder_mem hx)) (hrules ▸ hholder.rules) ?_ (by omega) hchar
      (finds hx d hd) rfl
    rwa [show q - s.position = cs.length by omega]
  obtain ⟨closed,hclosing,hstack,hos⟩ := @closing _ _ frames _ _ ht hx hchar hd
  rw [hstack] at hclosing hbetween
  have hslice : env.text.slice s.position q = String.ofList cs := hq ▸ hspells.left.slice
  have hflush' : env.FlushesAs s.top (s.buffer ++ env.text.slice s.position q ++ "") new := by
    rw [htop,String.append_empty,hslice,hbuffer,← String.ofList_append]
    exact hflush before hbefore
  have hplain : ∀ o ∈ holderOutline x.closePattern :: (if d = ',' then [] else [x.outline]),
      o.className = none ∧ o.starts = none := by
    intro o ho
    rcases List.mem_cons.mp ho with rfl | ho
    · exact ⟨rfl,rfl⟩
    · split at ho
      · cases ho
      · rw [List.mem_singleton.mp ho]
        exact ⟨className_eq_none hx,(plainMode hx).starts⟩
  obtain ⟨s',hcomes',hbetween',hbuffer',hposition⟩ : ∃ s', ComesTo env s₀ 1 s' ∧ _ :=
    hbetween.closes hcomes hexec hkind (Nat.lt_succ_self q) hclosing hholder hos (fun o ho => (hplain o ho).1)
      (fun o ho => (hplain o ho).2) rfl rfl hflush' (by dsimp only; omega)
  refine ⟨s',[d],hcomes',hbetween',?_,wordless_of_mem hx d hd,hposition⟩
  rw [hbuffer']
  exact (hq ▸ hspells.right).slice

end Steps
end Container
/-- The longest stretch in a container that a search gets over. -/
def longestStretch : Nat := 90908

lemma fitsBudget_of_le {x : Holder} (hx : x ∈ [Holder.member,.element]) {n : Nat} (hn : n ≤ longestStretch) :
    x.FitsBudget n := by
  have hall : ∀ x ∈ [Holder.member,.element], (longestStretch + 1) * (x.returns + 1) ≤ searchBudget := by decide
  exact Nat.le_trans (Nat.mul_le_mul_right _ (Nat.succ_le_succ hn)) (hall x hx)

/-- The character before a position is in no word. -/
def Apart (text : Source) (p : Nat) : Prop :=
  ∀ c, Haystack.charBefore? { text } p = some c → Text.isWord c = false

lemma apart_succ {c : Char} (h : text[p]? = some c) (hc : Text.isWord c = false) : Apart text (p + 1) := by
  intro c' hc'
  rw [Haystack.charBefore?,if_neg (by simp),Nat.add_sub_cancel] at hc'
  obtain rfl := Option.some.inj (h.symm.trans hc')
  exact hc

lemma apart_colon {bs : List Char} (h : text.Spells p (cs ++ (bs ++ [':']))) :
    Apart text (p + (cs ++ (bs ++ [':'])).length) := by
  rw [← List.append_assoc] at h ⊢
  rw [List.length_append,← Nat.add_assoc]
  exact apart_succ h.right.head (by decide)

namespace Blank

/-- Blanks do not join what is before them with what comes after. -/
lemma apart (blank : Blank) (hspells : text.Spells p blank.val) (h : Apart text p) :
    Apart text (p + blank.val.length) := by
  rcases List.eq_nil_or_concat blank.val with hnil | ⟨cs,c,hcs⟩
  · rwa [hnil]
  · rw [List.concat_eq_append] at hcs
    have hmem : c ∈ blank.val := hcs ▸ List.mem_append_right _ List.mem_cons_self
    rw [hcs] at hspells ⊢
    rw [List.length_append,← Nat.add_assoc]
    exact apart_succ hspells.right.head (not_isWord_of_wordless blank.wordless hmem)

lemma mem_quiet (blank : Blank) {x : Holder} (hx : x ∈ Holder.all) : ∀ c ∈ blank.val, c ∈ x.quiet := by
  have hall : ∀ x ∈ Holder.all, blankChars.all (fun c => decide (c ∈ x.quiet)) = true := by decide
  exact fun c hc => forall_of_all (hall x hx) c (blank.mem_blankChars hc)

/-- A blank or the end comes after a value, if what comes after that blank may follow one. -/
lemma follows (blank : Blank) (hspells : text.Spells p blank.val)
    (h : text[p + blank.val.length]? ∈ followers) : text[p]? ∈ followers := by
  have hall : ∀ c ∈ blankChars, some c ∈ followers := forall_of_all (by decide)
  cases hval : blank.val with
  | nil => rwa [hval] at h
  | cons c cs =>
    rw [hval] at hspells
    rw [hspells.head]
    exact hall c (blank.mem_blankChars (hval ▸ List.mem_cons_self))

end Blank

lemma quiet_of_spells {x : Holder} (hspells : text.Spells p cs) (hcs : ∀ c ∈ cs, c ∈ x.quiet) :
    x.Quiet text p (p + cs.length) := by
  intro k hk hlt
  obtain ⟨c,hc,hchar⟩ := hspells.exists_getElem? hk hlt
  exact ⟨c,hcs c hc,hchar⟩

namespace Holder

lemma finds_value : ∀ x ∈ all, x.Finds '"' 0 ∧ x.Finds '\x7b' 2 ∧ x.Finds '[' 3 := by decide +kernel

lemma node_mem : ∀ x ∈ all, x.node ∈ openNodes := by decide

lemma build_rules (ht : Grammar.Bundled.json.assemble = .ok env.table) (hx : x ∈ all) :
    RuleSet.build x.rules false = .ok (env.node x.node).rules := by
  have hall : ∀ x ∈ all, jsonOutlines[x.node]?.any (·.rules == x.rules) = true := by decide
  obtain ⟨o,ho,hrules⟩ := (Option.any_eq_true _ _).mp (hall x hx)
  rw [← beq_iff_eq.mp hrules]
  exact (outlined_of_json ht ho).rules

end Holder

section Open

variable (ht : Grammar.Bundled.json.assemble = .ok env.table)
include ht

/-- A mode for values opens a mode without a scope. -/
lemma Arrives.opensValue (h : Arrives env s₀ 0 ({ node := x.node } :: frames) scopes p) (hx : x ∈ Holder.all)
    (blank : Blank) (hspells : env.text.Spells p (blank.val ++ [d])) (hfits : x.FitsBudget blank.val.length)
    (hlen : frames.length < maxOpenModes) {i : Nat} (hfinds : x.Finds d i) (hword : wordless [d] = true)
    {c : Container} (hc : c ∈ Container.all) (hrule : x.rules[i]?.map Rule.kind = some (.begins c.node)) :
    Arrives env s₀ 1 ({ node := c.node } :: { node := x.node } :: frames) scopes (p + blank.val.length + 1) := by
  have hplain := Container.plainMode hc
  obtain ⟨rule,hrule,hkind⟩ := Option.map_eq_some_iff.mp hrule
  have hexec := (quiet_of_spells hspells.left (blank.mem_quiet hx)).exec_char hx (Holder.build_rules ht hx)
    (by rwa [Nat.add_sub_cancel_left]) (Nat.le_add_right _ _) hspells.right.head hfinds hrule
  rw [hkind] at hexec
  exact h.opens ht (Holder.node_mem x hx) blank hspells hword (Container.outlined ht hc)
    (Container.className_eq_none hc) hplain.guarded hplain.plainBegin hlen rfl rfl hexec (by simp)

/-- The mode for an element opens at once. -/
lemma Arrives.opensElement (h : Arrives env s₀ 1 ({ node := arrayNode } :: frames) scopes p)
    (hp : p ≤ env.text.size) (hlen : frames.length < maxOpenModes) :
    Arrives env s₀ 0 ({ node := elementNode } :: { node := arrayNode } :: frames) scopes p := by
  have harray : Outlined false arrayOutline (env.node arrayNode) := outlined_of_json ht rfl
  have helement : Outlined false (holderOutline "\\]") (env.node elementNode) := outlined_of_json ht rfl
  have hexec : (env.node arrayNode).rules.exec env.text p 0 = .ok (some ⟨p,p,.begins elementNode,0⟩) :=
    RuleSet.exec_of_build_startsEmpty (by decide +kernel) harray.rules hp
  have hnone : env.text.Spells p ([] ++ []) := Source.spells_nil
  exact h.opens ht (by decide) .none hnone rfl helement rfl rfl ⟨rfl,rfl,rfl,rfl⟩ hlen rfl rfl
    hexec (by simp)

/-- The mode for the value of a member opens after its name. -/
lemma Arrives.opensMember (h : Arrives env s₀ spare ({ node := objectNode } :: frames) scopes p)
    (before : Blank) {name : List Piece} (after : Blank)
    (hspells : env.text.Spells p (before.val ++ JsonText.quoted name ++ (after.val ++ [':'])))
    (hlen : frames.length + 1 < maxOpenModes)
    (hstop : stop = p + (before.val ++ JsonText.quoted name ++ (after.val ++ [':'])).length) :
    Arrives env s₀ 1 ({ node := memberNode } :: { node := objectNode } :: frames)
      (scopes ++ [scopeOf ("attr",JsonText.quoted name)]) stop := by
  have hobject : Outlined false objectOutline (env.node objectNode) := outlined_of_json ht rfl
  have hmember : Outlined false (holderOutline "\\\x7d") (env.node memberNode) := outlined_of_json ht rfl
  have hopen : objectNode ∈ openNodes := by decide
  rw [List.length_append,List.length_append,List.length_append,← Nat.add_assoc,← Nat.add_assoc,
    ← Nat.add_assoc] at hstop
  have hrest := hspells.right
  rw [List.length_append,← Nat.add_assoc] at hrest
  have hquote : env.text[p + before.val.length]? = some '"' := hspells.left.right.head
  have hexecName := (before.blanks hspells.left.left).exec_object (i := 0) hobject.rules (Nat.le_add_right _ _)
    hquote rfl rfl (by decide)
  have hexecMember := (after.blanks hrest.left).exec_object (i := 1) hobject.rules (Nat.le_add_right _ _)
    hrest.right.head rfl rfl (by decide)
  have hname := h.quoted ht hopen before Quoting.name_mem hspells.left hlen rfl rfl hexecName
  rw [hstop]
  exact hname.opens ht hopen after hrest (by decide) hmember rfl rfl ⟨rfl,rfl,rfl,rfl⟩ (by omega) rfl rfl
    hexecMember (by simp)

end Open

lemma Value.eq_literal {v : Value} {l : Literal} (h : v.literal? = some l) : v = .literal l := by
  cases v <;> simp_all [Value.literal?]

section Scan

variable (ht : Grammar.Bundled.json.assemble = .ok env.table)
include ht

/-- A value that is a literal gets its scope with the text around it. -/
lemma Container.closes_literal {x : Container} (hx : x ∈ Container.all)
    (h : Arrives env s₀ spare ({ node := x.holder.node } :: { node := x.node } :: frames) scopes p)
    (before after : Blank) (l : Literal) (hd : d ∈ [',',x.close])
    (hspells : env.text.Spells p (before.val ++ l.chars ++ after.val ++ [d]))
    (hlong : before.val.length + l.chars.length + after.val.length ≤ longestStretch)
    (hstop : stop = p + (before.val ++ l.chars ++ after.val).length + 1) :
    Arrives env s₀ 1 (x.after d frames) (scopes ++ [scopeOf ("literal",l.chars)]) stop := by
  have hholder := holder_mem hx
  have hletters : ∀ x ∈ [Holder.member,.element], l.chars.all (fun c => decide (c ∈ x.quiet)) = true := by
    cases l <;> decide
  have hquiet : ∀ c ∈ before.val ++ l.chars ++ after.val, c ∈ x.holder.quiet := by
    have hmem := List.mem_cons_of_mem Holder.top hholder
    simp only [List.mem_append]
    rintro c ((hc | hc) | hc)
    · exact before.mem_quiet hmem c hc
    · exact forall_of_all (hletters _ hholder) c hc
    · exact after.mem_quiet hmem c hc
  rw [hstop]
  refine closes ht hx h (quiet_of_spells hspells.left hquiet) rfl hspells (fitsBudget_of_le hholder ?_) hd
    (fun front hfront => ?_)
  · rwa [List.length_append,List.length_append]
  · have hflush := flushesAs_literal (ignoreCase_of_assemble ht) (outlined_holder ht hx) rfl rfl rfl l
      (wordless_append hfront before.wordless) after.wordless
    simpa only [List.append_assoc] using hflush

/-- The mode for a value closes after a blank. -/
lemma Container.closes_blank {x : Container} (hx : x ∈ Container.all)
    (h : Arrives env s₀ spare ({ node := x.holder.node } :: { node := x.node } :: frames) scopes p)
    (blank : Blank) (hd : d ∈ [',',x.close]) (hspells : env.text.Spells p (blank.val ++ [d]))
    (hlong : blank.val.length ≤ longestStretch) (hstop : stop = p + (blank.val ++ [d]).length) :
    Arrives env s₀ 1 (x.after d frames) scopes stop := by
  have hholder := holder_mem hx
  have hopen : ∀ x ∈ [Holder.member,.element], x.node ∈ openNodes := by decide
  rw [← List.append_nil scopes,hstop,List.length_append]
  exact closes ht hx h (quiet_of_spells hspells.left (blank.mem_quiet (List.mem_cons_of_mem _ hholder))) rfl hspells
    (fitsBudget_of_le hholder hlong) hd
    (fun front hfront => flushesAs_open ht (hopen _ hholder) (wordless_append hfront blank.wordless))

/-- An object closes after a blank. -/
lemma Arrives.closesObject (h : Arrives env s₀ spare ({ node := objectNode } :: frames) scopes p) (blank : Blank)
    (hspells : env.text.Spells p (blank.val ++ ['\x7d'])) (hstop : stop = p + (blank.val ++ ['\x7d']).length) :
    Arrives env s₀ 0 frames scopes stop := by
  obtain ⟨s,before,hcomes,hbetween,hbuffer,hbefore,rfl⟩ := h
  have htop : s.top = objectNode := by rw [State.top,hbetween.stack]; rfl
  have ho : Outlined false objectOutline (env.node objectNode) := outlined_of_json ht rfl
  have hexec := (blank.blanks hspells.left).exec_object (i := 4) ho.rules (Nat.le_add_right _ _) hspells.right.head
    rfl rfl (by decide)
  obtain ⟨hmem,hpattern⟩ := Container.closes_mem Container.object_mem
  have hends : endsAt env { node := objectNode } (s.position + blank.val.length) = .ok true := by
    rw [endsAt_char ho hpattern hmem (Nat.le_of_lt hspells.succ_le_size),hspells.right.head]
    rfl
  have hclosing : closing env (s.position + blank.val.length) ({ node := objectNode } :: frames) = _ :=
    closing_own hends (by rw [show env.switches objectNode = _ from ho.switches]; rfl)
  have hlexeme : env.lexeme ⟨s.position + blank.val.length,s.position + blank.val.length + 1,.ends,4⟩ =
      String.ofList ['\x7d'] := hspells.right.slice
  have hflush := flushesAs_open ht (show objectNode ∈ openNodes by decide)
    (wordless_append (wordless_append hbefore blank.wordless) (show wordless ['\x7d'] = true by decide))
  rw [String.ofList_append,String.ofList_append,← hbuffer,← hspells.left.slice,← hlexeme,← htop] at hflush
  rw [← htop] at hexec
  have hstack : Between ({ node := objectNode } :: [] ++ frames) scopes s := hbetween
  obtain ⟨s',hcomes',hbetween',hbuffer',hposition⟩ : ∃ s', ComesTo env s₀ 0 s' ∧ _ :=
    hstack.closes hcomes hexec rfl (Nat.lt_succ_self _) hclosing ho .nil (by simp [objectOutline])
      (by simp [objectOutline]) rfl rfl hflush (by dsimp only; omega)
  rw [List.append_nil] at hbetween'
  refine ⟨s',[],hcomes',hbetween',hbuffer',rfl,?_⟩
  rw [hposition,hstop,List.length_append,← Nat.add_assoc]
  rfl

/-! A scan of each part draws the scopes of its tokens. -/
mutual

theorem Value.scan (v : Value) (hv : v.literal? = none) {x : Holder} (hx : x ∈ Holder.all)
    {frames : List Frame} {scopes : List (Option String × String)} {p stop : Nat}
    (h : Arrives env s₀ 0 ({ node := x.node } :: frames) scopes p) (blank : Blank)
    (hspells : env.text.Spells p (blank.val ++ v.chars)) (hp : p ≤ env.text.size)
    (hfits : x.FitsBudget blank.val.length) (hapart : Apart env.text p)
    (hstop : stop = p + (blank.val ++ v.chars).length) (hfollows : env.text[stop]? ∈ followers)
    (hlong : ∀ n ∈ v.stretches, n ≤ longestStretch) (hdepth : frames.length + 1 + 2 * v.depth < maxOpenModes) :
    Arrives env s₀ 0 ({ node := x.node } :: frames) (scopes ++ v.tokens.map scopeOf) stop := by
  rw [List.length_append,← Nat.add_assoc] at hstop
  have hquiet := quiet_of_spells hspells.left (blank.mem_quiet hx)
  have hbuild := Holder.build_rules ht hx
  have hbudget : x.FitsBudget (p + blank.val.length - p) := by rwa [Nat.add_sub_cancel_left]
  have hafter : p ≤ p + blank.val.length := Nat.le_add_right _ _
  have hapart' := blank.apart hspells.left hapart
  have hsize := hspells.left.le_size hp
  obtain ⟨hquote,hbrace,hbracket⟩ := Holder.finds_value x hx
  match v with
  | .literal l => cases hv
  | .number n =>
    exact h.number ht (Holder.node_mem x hx) blank hspells hp (by omega) rfl hstop
      (hstop ▸ hquiet.exec_number hx hbuild hbudget hafter n hspells.right hsize hapart' (hstop ▸ hfollows))
  | .string pieces =>
    exact h.quoted ht (Holder.node_mem x hx) blank Quoting.string_mem hspells hdepth rfl hstop
      (hquiet.exec_char hx hbuild hbudget hafter hspells.right.head hquote rfl)
  | .emptyArray inner =>
    rw [Value.chars,List.cons_append] at hspells hstop
    rw [List.length_cons] at hstop
    rw [Value.depth] at hdepth
    obtain ⟨hbegin,hrest⟩ := hspells.uncons
    have harray : Arrives env s₀ 1 ({ node := arrayNode } :: { node := x.node } :: frames) scopes _ :=
      h.opensValue ht hx blank hbegin hfits (by omega) hbracket (by decide) Container.array_mem (by rfl)
    have helement := harray.opensElement ht hspells.succ_le_size (by rw [List.length_cons]; omega)
    rw [Value.tokens,List.map_nil,List.append_nil]
    exact (Container.closes_blank ht Container.array_mem helement inner (by decide) hrest
      (hlong _ (by simp [Value.stretches])) (by omega)).mono (Nat.zero_le _)
  | .array items =>
    rw [Value.chars,List.cons_append] at hspells hstop
    rw [List.length_cons] at hstop
    rw [Value.depth] at hdepth
    obtain ⟨hbegin,hrest⟩ := hspells.uncons
    have harray : Arrives env s₀ 1 ({ node := arrayNode } :: { node := x.node } :: frames) scopes _ :=
      h.opensValue ht hx blank hbegin hfits (by omega) hbracket (by decide) Container.array_mem (by rfl)
    exact (Items.scan items harray hrest hspells.succ_le_size (apart_succ hbegin.right.head (by decide)) (by omega)
      hlong (by rw [List.length_cons]; omega)).mono (Nat.zero_le _)
  | .emptyObject inner =>
    rw [Value.chars,List.cons_append] at hspells hstop
    rw [List.length_cons] at hstop
    obtain ⟨hbegin,hrest⟩ := hspells.uncons
    have hobject : Arrives env s₀ 1 ({ node := objectNode } :: { node := x.node } :: frames) scopes _ :=
      h.opensValue ht hx blank hbegin hfits (by omega) hbrace (by decide) Container.object_mem (by rfl)
    rw [Value.tokens,List.map_nil,List.append_nil]
    exact hobject.closesObject ht inner hrest (by omega)
  | .object members =>
    rw [Value.chars,List.cons_append] at hspells hstop
    rw [List.length_cons] at hstop
    rw [Value.depth] at hdepth
    obtain ⟨hbegin,hrest⟩ := hspells.uncons
    have hobject : Arrives env s₀ 1 ({ node := objectNode } :: { node := x.node } :: frames) scopes _ :=
      h.opensValue ht hx blank hbegin hfits (by omega) hbrace (by decide) Container.object_mem (by rfl)
    exact (Members.scan members hobject hrest hspells.succ_le_size (by omega) hlong
      (by rw [List.length_cons]; omega)).mono (Nat.zero_le _)

theorem Padded.scan (w : Padded) {x : Container} (hx : x ∈ Container.all)
    {frames : List Frame} {scopes : List (Option String × String)} {p stop : Nat} {d : Char}
    (h : Arrives env s₀ 0 ({ node := x.holder.node } :: { node := x.node } :: frames) scopes p)
    (hspells : env.text.Spells p (w.chars ++ [d])) (hd : d ∈ [',',x.close]) (hp : p ≤ env.text.size)
    (hapart : Apart env.text p) (hstop : stop = p + (w.chars ++ [d]).length)
    (hlong : ∀ n ∈ w.stretches, n ≤ longestStretch) (hdepth : frames.length + 2 + 2 * w.depth < maxOpenModes) :
    Arrives env s₀ 1 (x.after d frames) (scopes ++ w.tokens.map scopeOf) stop := by
  match w with
  | .mk before v after =>
    rw [Padded.chars] at hspells hstop
    cases hliteral : v.literal? with
    | some l =>
      obtain rfl := Value.eq_literal hliteral
      refine Container.closes_literal ht hx h before after l hd hspells (hlong _ ?_) ?_
      · simp [Padded.stretches,Value.literal?]
      · rw [hstop,List.length_append,← Nat.add_assoc]
        rfl
    | none =>
      rw [Padded.stretches,hliteral] at hlong
      rw [List.append_assoc] at hspells hstop
      have hafter := hspells.right
      have hfollows := after.follows hafter.left (hafter.right.head ▸ Container.follows hx d hd)
      have hvalue := Value.scan v hliteral (List.mem_cons_of_mem _ (Container.holder_mem hx)) h before
        hspells.left hp (fitsBudget_of_le (Container.holder_mem hx) (hlong _ List.mem_cons_self)) hapart rfl hfollows
        (fun n hn => hlong n (List.mem_cons_of_mem _ (List.mem_append_left _ hn)))
        (by rw [List.length_cons]; rw [Padded.depth] at hdepth; omega)
      exact Container.closes_blank ht hx hvalue after hd hafter
        (hlong _ (List.mem_cons_of_mem _ (List.mem_append_right _ List.mem_cons_self)))
        (by rw [hstop,List.length_append,← Nat.add_assoc])

theorem Items.scan (items : Items) {frames : List Frame} {scopes : List (Option String × String)} {p stop : Nat}
    (h : Arrives env s₀ 1 ({ node := arrayNode } :: frames) scopes p)
    (hspells : env.text.Spells p (items.chars ++ [']'])) (hp : p ≤ env.text.size)
    (hapart : Apart env.text p) (hstop : stop = p + (items.chars ++ [']']).length)
    (hlong : ∀ n ∈ items.stretches, n ≤ longestStretch)
    (hdepth : frames.length + 2 + 2 * items.depth < maxOpenModes) :
    Arrives env s₀ 1 frames (scopes ++ items.tokens.map scopeOf) stop := by
  have helement := h.opensElement ht hp (by omega)
  match items with
  | .last item => exact item.scan Container.array_mem helement hspells (by decide) hp hapart hstop hlong hdepth
  | .more item rest =>
    rw [Items.chars,List.append_assoc,List.cons_append] at hspells hstop
    obtain ⟨hitem,hrest⟩ := hspells.uncons
    rw [Items.depth] at hdepth
    rw [Items.tokens,List.map_append,← List.append_assoc]
    have hfirst := Padded.scan item Container.array_mem helement hitem (by decide) hp hapart rfl
      (fun n hn => hlong n (List.mem_append_left _ hn)) (by omega)
    rw [List.length_append,List.length_singleton,← Nat.add_assoc] at hfirst
    exact Items.scan rest hfirst hrest hspells.succ_le_size (apart_succ hitem.right.head (by decide))
      (by rw [hstop,List.length_append,List.length_cons]; omega)
      (fun n hn => hlong n (List.mem_append_right _ hn)) (by omega)

theorem Members.scan (members : Members) {frames : List Frame} {scopes : List (Option String × String)}
    {p stop : Nat} (h : Arrives env s₀ 1 ({ node := objectNode } :: frames) scopes p)
    (hspells : env.text.Spells p (members.chars ++ ['\x7d'])) (hp : p ≤ env.text.size)
    (hstop : stop = p + (members.chars ++ ['\x7d']).length)
    (hlong : ∀ n ∈ members.stretches, n ≤ longestStretch)
    (hdepth : frames.length + 2 + 2 * members.depth < maxOpenModes) :
    Arrives env s₀ 1 frames (scopes ++ members.tokens.map scopeOf) stop := by
  match members with
  | .last before name after value =>
    have hchars : (Members.last before name after value).chars ++ ['\x7d'] =
        before.val ++ quoted name ++ (after.val ++ [':']) ++ (value.chars ++ ['\x7d']) := by simp [Members.chars]
    rw [hchars] at hspells hstop
    have hmember := h.opensMember ht before after hspells.left (by omega) rfl
    have hvalue := Padded.scan value Container.object_mem (hmember.mono (Nat.zero_le _)) hspells.right (by decide)
      (hspells.left.le_size hp) (apart_colon hspells.left) rfl hlong hdepth
    rw [Members.tokens,List.map_cons,List.append_cons,hstop,List.length_append,← Nat.add_assoc]
    exact hvalue
  | .more before name after value rest =>
    have hchars : (Members.more before name after value rest).chars ++ ['\x7d'] =
        before.val ++ quoted name ++ (after.val ++ [':']) ++ (value.chars ++ ',' :: (rest.chars ++ ['\x7d'])) := by
      simp [Members.chars]
    rw [hchars] at hspells hstop
    rw [Members.depth] at hdepth
    have hmember := h.opensMember ht before after hspells.left (by omega) rfl
    obtain ⟨hfirst,hrest⟩ := hspells.right.uncons
    have hvalue := Padded.scan value Container.object_mem (hmember.mono (Nat.zero_le _)) hfirst (by decide)
      (hspells.left.le_size hp) (apart_colon hspells.left) rfl
      (fun n hn => hlong n (List.mem_append_left _ hn)) (by omega)
    have hlength : (value.chars ++ [',']).length = value.chars.length + 1 := by simp
    rw [hlength,← Nat.add_assoc] at hvalue
    have hscopes : scopes ++ (Members.more before name after value rest).tokens.map scopeOf =
        scopes ++ [scopeOf ("attr",quoted name)] ++ value.tokens.map scopeOf ++ rest.tokens.map scopeOf := by
      simp [Members.tokens]
    rw [hscopes]
    exact Members.scan rest hvalue hrest hspells.right.succ_le_size
      (by simp only [hstop,List.length_append,List.length_cons]; omega)
      (fun n hn => hlong n (List.mem_append_right _ hn)) (by omega)

end

end Scan

end Highlight.JsonText
