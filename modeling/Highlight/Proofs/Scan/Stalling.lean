import Highlight.Proofs.Scan.Gains
import Highlight.Proofs.Scan.Unclosing

/-!
Empty ends that are not let close. An empty end at the place where the step before found a begin is a fault,
or the scan steps over a character there. The begin may be empty and have opened the mode that is to close. But
it may as well have characters that were handed back, or have been ignored, where it opened no mode at all.
-/
namespace Highlight.Scan

open Rules Highlight.Scan.Action

variable {env : Env} {s s' s₀ t : State} {m b : RuleMatch} {k n number moved : Nat} {id : NodeId} {goesOn : Bool}

section Last

lemma stalls_iff : stalls s.last m = true ↔
    ∃ b id, s.last = some b ∧ b.kind = .begins id ∧ m.kind = .ends ∧ b.start = m.start ∧ m.start = m.stop := by
  cases s.last with
  | none => simp [stalls]
  | some b => cases hkind : b.kind <;> simp [stalls,RuleMatch.isBegin,RuleMatch.isEmpty,hkind,and_assoc]

/-- A reaction notes the match, unless it is one to an end that is not let close. -/
lemma Reaction.last_eq (h : Reaction env m s moved s') (hstalls : stalls s.last m = false) : s'.last = some m := by
  cases h with
  | opens _ _ _ hput => exact ((put_puts env _ _ _).ok hput).keeps.last
  | @closes closed s₁ _ _ _ hput =>
    have hlast : (closed.foldl (fun s f => s.pop env f) s₁).last = some m := by
      rw [last_foldl_pop]
      exact ((put_puts env _ _ _).ok hput).keeps.last
    rw [State.close]
    cases nextFrame? env closed with
    | none => exact hlast
    | some next => exact hlast
  | keeps | leaves => rfl
  | steps hstalls' => cases hstalls.symm.trans hstalls'

/-- The reaction to an end that is not let close steps over a character. -/
lemma Reaction.of_stalls (h : Reaction env m s moved s') (hstalls : stalls s.last m = true) :
    moved = 1 ∧ s'.last = s.last := by
  obtain ⟨-,-,-,-,hkind,-,-⟩ := stalls_iff.mp hstalls
  cases h with
  | opens hkind' | leaves hkind' => cases hkind.symm.trans hkind'
  | closes _ hstalls' => cases hstalls'.symm.trans hstalls
  | keeps h =>
    cases h with
    | ignored hkind' | aborted hkind' | tolerated hkind' => cases hkind.symm.trans hkind'
    | unclosing _ hstalls' => cases hstalls'.symm.trans hstalls
  | steps => exact ⟨rfl,rfl⟩

/-- The step that leads to a state, from the one that it was taken in, and the match that it found there. -/
structure LeadsTo (env : Env) (s₀ : State) (k : Nat) (t : State) (b : RuleMatch) (s : State) : Prop where
  after : After env s₀ k t
  found : ((nextMatch env).run t).1 = .ok (some b)
  step : (Scan.step env (k + 1)).run t = (.ok true,s)

/-- What a step that found a match did. -/
lemma LeadsTo.exists_reaction (h : LeadsTo env s₀ k t b s) : ∃ moved s',
    Reaction env b (t.atMatch env b) moved s' ∧ s = { s' with position := b.start + moved } := by
  have hexec := nextMatch_eq_ok_iff.mp h.found
  have hstepped := (step_cases env _ t).ok h.step
  generalize true = goesOn at hstepped
  cases hstepped with
  | ends hnone => cases hexec.symm.trans hnone
  | finds hexec' _ hreact =>
    obtain rfl := Option.some.inj (Except.ok.inj (hexec.symm.trans hexec'))
    exact ⟨_,_,hreact,rfl⟩

lemma After.exists_leadsTo (h : After env s₀ k t) (hstep : (Scan.step env (k + 1)).run t = (.ok true,s)) :
    ∃ b, LeadsTo env s₀ k t b s := by
  have hstepped := (step_cases env _ t).ok hstep
  generalize hgoes : true = goesOn at hstepped
  cases hstepped with
  | ends => cases hgoes
  | finds hexec => exact ⟨_,h,nextMatch_eq_ok_iff.mpr hexec,hstep⟩

/-- The match that was noted last is that of the step before, or the cursor has gone past its start. -/
lemma After.last_found (h₀ : s₀.last = none) (hs : After env s₀ n s) (hlast : s.last = some b) :
    b.start < s.position ∨ ∃ k t, n = k + 1 ∧ LeadsTo env s₀ k t b s := by
  cases hs with
  | start => cases h₀.symm.trans hlast
  | @step k t _ ht hstep =>
    obtain ⟨m,h⟩ := ht.exists_leadsTo hstep
    obtain ⟨moved,s',hreact,rfl⟩ := h.exists_reaction
    cases hstalls : stalls t.last m with
    | false =>
      have hnoted : s'.last = some m := hreact.last_eq hstalls
      obtain rfl := Option.some.inj (hnoted.symm.trans hlast)
      exact .inr ⟨k,t,rfl,h⟩
    | true =>
      obtain ⟨rfl,hkept⟩ := hreact.of_stalls hstalls
      obtain ⟨b',-,hlast',-,-,hstart,-⟩ := stalls_iff.mp hstalls
      obtain rfl := Option.some.inj (hlast'.symm.trans (hkept.symm.trans hlast))
      exact .inl (hstart ▸ Nat.lt_succ_self _)

end Last

section Begins

/-- Why the cursor is still at the start of a begin that the step before found. -/
inductive Lingers (env : Env) (t : State) (b : RuleMatch) (id : NodeId) (stack : List Frame) : Prop where
  /-- An empty begin has opened its mode. -/
  | empty (hverdict : verdict env (env.node id) b = .accept) (hempty : b.start = b.stop)
      (hstack : stack = beginFrame env b id :: t.stack)
  /-- A begin with characters has opened its mode and has been handed back. -/
  | handedBack (hverdict : verdict env (env.node id) b = .accept) (hlt : b.start < b.stop)
      (hreturn : (env.switches id).returnBegin = true) (hstack : stack = beginFrame env b id :: t.stack)
  /-- A begin has been ignored, and the rules after it are left. No mode has been opened. -/
  | ignored (hverdict : verdict env (env.node id) b = .ignore)
      (hleft : b.index + 1 ≠ (t.ruleSet env).beginCount) (hstack : stack = t.stack)

lemma IsKept.moved_pos (h : IsKept env b s moved) (hkind : b.kind = .begins id) (hb : b.start ≤ b.stop) :
    0 < moved := by
  cases h with
  | ignored => exact Nat.one_pos
  | aborted =>
    split
    · exact Nat.one_pos
    · rename_i hempty
      have hne : b.start ≠ b.stop := by simpa [RuleMatch.isEmpty] using hempty
      omega
  | unclosing hkind' | tolerated hkind' => cases hkind.symm.trans hkind'

lemma Reaction.lingers (h : Reaction env b (t.atMatch env b) 0 s) (hkind : b.kind = .begins id)
    (hb : b.start ≤ b.stop) : Lingers env t b id s.stack := by
  generalize hmoved : 0 = moved at h
  cases h with
  | opens hkind' hverdict _ hput =>
    obtain rfl : id = _ := RuleKind.begins.inj (hkind.symm.trans hkind')
    have hstack : (State.push env (beginFrame env b id) _).stack = beginFrame env b id :: t.stack :=
      congrArg (List.cons _) ((put_puts env _ _ _).ok hput).keeps.stack
    rcases Nat.eq_or_lt_of_le hb with hempty | hlt
    · exact .empty hverdict hempty hstack
    · refine .handedBack hverdict hlt ?_ hstack
      by_contra hreturn
      rw [if_neg hreturn] at hmoved
      omega
  | closes hkind' => cases hkind.symm.trans hkind'
  | keeps h => exact absurd hmoved (Nat.ne_of_lt (h.moved_pos hkind hb))
  | leaves hkind' hverdict hresume =>
    obtain rfl : id = _ := RuleKind.begins.inj (hkind.symm.trans hkind')
    refine .ignored hverdict (fun hlast => hresume ?_) rfl
    have hbegin : b.isBegin = true := by rw [RuleMatch.isBegin,hkind]
    rw [State.atMatch,if_pos hbegin,RuleSet.resumeAfter,if_pos hlast]
  | steps => cases hmoved

/-- An empty end at the place of a begin that the step before found. -/
structure FollowsBegin (env : Env) (s₀ : State) (n : Nat) (s : State) (m : RuleMatch) : Prop where
  kind : m.kind = .ends
  isEmpty : m.start = m.stop
  before : ∃ k t b id, n = k + 1 ∧ LeadsTo env s₀ k t b s ∧ b.kind = .begins id ∧ b.start = m.start ∧
    Lingers env t b id s.stack

/-- The ends that are not let close. -/
lemma After.stalls_iff_followsBegin (h₀ : s₀.last = none) (hs : After env s₀ n s)
    (hfound : ((nextMatch env).run s).1 = .ok (some m)) :
    stalls s.last m = true ↔ FollowsBegin env s₀ n s m := by
  constructor
  · intro hstalls
    obtain ⟨b,id,hlast,hkind,hends,hstart,hempty⟩ := stalls_iff.mp hstalls
    have hposition := (RuleSet.exec_within (nextMatch_eq_ok_iff.mp hfound)).start_le
    rcases hs.last_found h₀ hlast with hlt | ⟨k,t,rfl,h⟩
    · omega
    · refine ⟨hends,hempty,k,t,b,id,rfl,h,hkind,hstart,?_⟩
      have hb := (RuleSet.exec_within (nextMatch_eq_ok_iff.mp h.found)).start_le_stop
      obtain ⟨moved,s',hreact,rfl⟩ := h.exists_reaction
      obtain rfl : moved = 0 := by
        have hposition : b.start + moved ≤ m.start := hposition
        omega
      exact hreact.lingers hkind hb
  · rintro ⟨hends,hempty,k,t,b,id,rfl,h,hkind,hstart,-⟩
    obtain ⟨moved,s',hreact,rfl⟩ := h.exists_reaction
    have hlast : s'.last = some b := hreact.last_eq (stalls_of_begins hkind _)
    exact stalls_iff.mpr ⟨b,id,hlast,hkind,hends,hstart,hempty⟩

end Begins

section Steps

/-- The fault of an end that is not let close. -/
def zeroWidth (env : Env) (m : RuleMatch) : Halt := .fault (.zeroWidthMatch (env.text.byteOffset m.start))

lemma step_of_stalls (hexec : (s.ruleSet env).exec env.text s.position s.firstRule = .ok (some m))
    (hstalls : stalls s.last m = true) : (step env number).Ensures s
      (fun _ s' => env.safeMode = true ∧ KeepsText env s s' ∧ s'.position = m.start + 1)
      (fun halt _ => halt = .fault (.runawayLoop number (env.text.byteOffset m.start)) ∨
        env.safeMode = false ∧ halt = zeroWidth env m) := by
  refine step_of_found hexec (fun _ _ => .inl rfl) (fun _ => ?_)
  have hstalls : stalls (s.atMatch env m).last m = true := hstalls
  rw [react,ensures_bind,ensures_get,if_pos hstalls]
  cases hsafe : env.safeMode with
  | true =>
    refine keepNext_keeps m.start ⟨rfl,⟨rfl,rfl,rfl,rfl,?_⟩,rfl⟩
    have hstart := (RuleSet.exec_within hexec).start_le
    simp only [State.atMatch,String.append_assoc]
    rw [env.text.slice_append hstart (Nat.le_succ _)]
  | false => exact .inr ⟨rfl,rfl⟩

/-- What is open after an end has closed modes: the one that follows them, and those around them. -/
def stackAfter (env : Env) (closed stack : List Frame) : List Frame :=
  (nextFrame? env closed).toList ++ stack.drop closed.length

lemma State.close_stack (env : Env) (closed : List Frame) (s : State) :
    (s.close env closed).stack = stackAfter env closed s.stack := by
  rw [State.close,stackAfter]
  cases nextFrame? env closed with
  | none => exact stack_foldl_pop closed
  | some next => exact congrArg (List.cons next) (stack_foldl_pop closed)

lemma step_of_not_stalls (hexec : (s.ruleSet env).exec env.text s.position s.firstRule = .ok (some m))
    (hstalls : stalls s.last m = false) : (step env number).Ensures s
      (fun _ s' => m.kind = .ends → ∀ closed, closing env m.start s.stack = .ok (some closed) →
        s'.stack = stackAfter env closed s.stack)
      (fun halt _ => ∀ index, halt ≠ .fault (.zeroWidthMatch index)) := by
  refine step_of_found hexec (fun _ _ => nofun) (fun _ => ?_)
  have hm := (RuleSet.exec_within hexec).start_le_stop
  have hreact := (react_cases env (s.atMatch env m) hm).and (react_neverStalls hstalls)
  refine hreact.mono (fun moved s' hreacts hkind closed hclosing => ?_)
    (fun halt _ hhalts index hindex => ?_)
  · cases hreacts.1 with
    | opens hkind' | leaves hkind' => cases hkind.symm.trans hkind'
    | closes _ _ hclosing' hput =>
      obtain rfl := Option.some.inj (Except.ok.inj (hclosing.symm.trans hclosing'))
      have hstack : _ = s.stack := ((put_puts env _ _ _).ok hput).keeps.stack
      exact (State.close_stack env closed _).trans (congrArg (stackAfter env closed) hstack)
    | keeps h =>
      cases h with
      | ignored hkind' | aborted hkind' | tolerated hkind' => cases hkind.symm.trans hkind'
      | unclosing _ _ hclosing' => cases hclosing.symm.trans hclosing'
    | steps hstalls' => cases hstalls.symm.trans hstalls'
  · subst hindex
    exact hhalts.2 trivial

lemma not_isStall_of_exec {rules : RuleSet} {text : Source} {start first : Nat} {f : Fault}
    (h : rules.exec text start first = .error f) : ¬ (Halt.fault f).IsStall := by
  unfold RuleSet.exec Matcher.exec at h
  split at h
  · cases h
  · split at h
    · split at h
      · cases h
      · split at h <;> cases h
        exact id
    · cases h
      exact id

/-- The step in which a scan halts at an end that is not let close. -/
lemma exists_step_of_zeroWidth {index : Nat} (h₀ : s₀.position ≤ env.text.size)
    (hrun : (run env s₀).1 = .error (.fault (.zeroWidthMatch index))) :
    ∃ n s m, After env s₀ n s ∧ ((nextMatch env).run s).1 = .ok (some m) ∧ stalls s.last m = true ∧
      env.safeMode = false ∧ index = env.text.byteOffset m.start := by
  obtain ⟨n,-,hends⟩ := run_endsAfter h₀
  generalize run env s₀ = e at hends hrun
  cases hends with
  | @halted s s' halt hs hhalt =>
    obtain rfl := Except.error.inj hrun
    rcases hexec : (s.ruleSet env).exec env.text s.position s.firstRule with f | _ | m
    · have hfault : (step env (n + 1)).Ensures s (fun _ _ => True) (fun halt _ => ¬ halt.IsStall) :=
        step_of_error hexec (fun _ => not_isStall_of_exec hexec)
      exact absurd trivial (hfault.error hhalt)
    · have hdone : (step env (n + 1)).Ensures s (fun _ _ => True) (fun _ _ => False) := step_of_none hexec trivial
      exact (hdone.error hhalt).elim
    · cases hstalls : stalls s.last m with
      | false => exact absurd rfl ((step_of_not_stalls hexec hstalls).error hhalt index)
      | true =>
        rcases (step_of_stalls hexec hstalls).error hhalt with hmany | ⟨hstrict,hzero⟩
        · cases hmany
        · exact ⟨n,s,m,hs,nextMatch_eq_ok_iff.mpr hexec,hstalls,hstrict,
            Fault.zeroWidthMatch.inj (Halt.fault.inj hzero)⟩
  | @finished s s' => exact absurd trivial ((finish_neverStalls env s').error (Prod.ext hrun rfl))

end Steps

/-- In strict mode a scan halts at an empty end at the place of a begin that the step before found. In safe
mode it steps over a character there, and closes nothing. Everywhere else an end closes what it is to close.
The begin has opened its mode, empty or handed back, or it has been ignored. -/
theorem zeroWidth_at_begins (env : Env) (c : Option Continuation) (assembled : List String) :
    let s₀ := State.opened env.table c assembled
    (∀ index, (run env s₀).1 = .error (.fault (.zeroWidthMatch index)) →
      ∃ n s m, After env s₀ n s ∧ ((nextMatch env).run s).1 = .ok (some m) ∧ FollowsBegin env s₀ n s m ∧
        env.safeMode = false ∧ index = env.text.byteOffset m.start) ∧
    ∀ n s m, After env s₀ n s → ((nextMatch env).run s).1 = .ok (some m) →
      (FollowsBegin env s₀ n s m → (step env (n + 1)).Ensures s
        (fun _ s' => env.safeMode = true ∧ KeepsText env s s' ∧ s'.position = m.start + 1)
        (fun halt _ => halt = .fault (.runawayLoop (n + 1) (env.text.byteOffset m.start)) ∨
          env.safeMode = false ∧ halt = zeroWidth env m)) ∧
      (¬ FollowsBegin env s₀ n s m → (step env (n + 1)).Ensures s
        (fun _ s' => m.kind = .ends → ∀ closed, closing env m.start s.stack = .ok (some closed) →
          s'.stack = stackAfter env closed s.stack)
        (fun halt _ => ∀ index, halt ≠ .fault (.zeroWidthMatch index))) := by
  intro s₀
  have hlast : s₀.last = none := by
    obtain ⟨stack,hopened,-⟩ := exists_opened_eq env.table c assembled
    exact congrArg State.last hopened
  refine ⟨fun index hrun => ?_,fun n s m hs hfound => ?_⟩
  · obtain ⟨n,s,m,hs,hfound,hstalls,hstrict,hindex⟩ :=
      exists_step_of_zeroWidth (opened_in_text env c assembled) hrun
    exact ⟨n,s,m,hs,hfound,(hs.stalls_iff_followsBegin hlast hfound).mp hstalls,hstrict,hindex⟩
  · have hexec := nextMatch_eq_ok_iff.mp hfound
    rw [← hs.stalls_iff_followsBegin hlast hfound]
    exact ⟨step_of_stalls hexec,fun hstalls => step_of_not_stalls hexec (eq_false_of_ne_true hstalls)⟩

/-- A grammar of text up to a mark, where marks after a dot are no marks of their own. -/
def marking : Grammar where
  name := "marking"
  root := { contains := some [.mode 0] }
  modes := #[
    { className := some "text", beginPattern := some "<", endPattern := some "(?=!)"
      contains := some [.mode 1,.mode 2] },
    { className := some "mark", beginPattern := some "!", beginGuard := some .noSurroundingDot },
    { className := some "sign", beginPattern := some "#" }]

/-- A scan of a text on its own, in safe mode or not. -/
def Env.aloneIn (safeMode : Bool) (table : NodeTable) (code : String) : Env := { Env.alone table code with safeMode }

/-- Two steps of a scan, of which the first ignores a begin with characters and the second finds an empty end
and leaves the modes open that this end would close. -/
structure KeepsOpen (env : Env) (b m : RuleMatch) (id : NodeId) (t s : State) : Prop where
  before : After env (.opened env.table none []) 1 t
  found : ((nextMatch env).run t).1 = .ok (some b)
  kind : b.kind = .begins id
  ignored : verdict env (env.node id) b = .ignore
  nonempty : b.start < b.stop
  after : After env (.opened env.table none []) 2 s
  next : ((nextMatch env).run s).1 = .ok (some m)
  kind_next : m.kind = .ends
  closing : ∃ f, closing env m.start s.stack = .ok (some [f])
  stack : ((step env 3).run s).2.stack = s.stack

/-- Whether the two steps after the first one keep modes open so. -/
def keepsOpen (env : Env) (b m : RuleMatch) (id : NodeId) (t : State) : Bool :=
  match (step env 2).run t with
  | (.ok true,s) => decide (((nextMatch env).run t).1.toOption = some (some b) ∧ b.kind = .begins id ∧
      verdict env (env.node id) b = .ignore ∧ b.start < b.stop ∧
      ((nextMatch env).run s).1.toOption = some (some m) ∧ m.kind = .ends ∧
      (closing env m.start s.stack).toOption = some (some [{ node := 1 }]) ∧
      ((step env 3).run s).2.stack = s.stack)
  | _ => false

lemma exists_of_keepsOpen {env : Env} {t : State} (ht : After env (.opened env.table none []) 1 t)
    (h : keepsOpen env b m id t = true) : ∃ s, KeepsOpen env b m id t s := by
  rw [keepsOpen] at h
  split at h
  · rename_i s hstep
    obtain ⟨hfound,hkind,hignored,hlt,hnext,hends,hclosing,hstack⟩ := of_decide_eq_true h
    exact ⟨s,ht,except_eq_ok_of_toOption hfound,hkind,hignored,hlt,.step ht hstep,
      except_eq_ok_of_toOption hnext,hends,⟨_,except_eq_ok_of_toOption hclosing⟩,hstack⟩
  · cases h

lemma exists_keepsOpen_marking : ∃ table, marking.assemble = .ok table ∧
    (∀ safeMode, ∃ t s, KeepsOpen (.aloneIn safeMode table "<.!") ⟨2,3,.begins 2,0⟩ ⟨2,2,.ends,2⟩ 2 t s) ∧
    (run (.aloneIn false table "<.!") (.opened table none [])).1 = .error (.fault (.zeroWidthMatch 2)) := by
  have hrun : shows marking (.aloneIn false · "<.!") 0 (fun table s₀ =>
      decide ((run (.aloneIn false table "<.!") s₀).1 = .error (.fault (.zeroWidthMatch 2)))) = true := by
    decide +kernel
  have hkeeps : ∀ safeMode, shows marking (.aloneIn safeMode · "<.!") 1 (fun table =>
      keepsOpen (.aloneIn safeMode table "<.!") ⟨2,3,.begins 2,0⟩ ⟨2,2,.ends,2⟩ 2) = true := by
    decide +kernel
  obtain ⟨table,s₀,htable,hstart,hrun⟩ := exists_of_shows hrun
  cases hstart
  refine ⟨table,htable,fun safeMode => ?_,of_decide_eq_true hrun⟩
  obtain ⟨table',t,htable',ht,h⟩ := exists_of_shows (hkeeps safeMode)
  cases htable.symm.trans htable'
  exact ⟨t,exists_of_keepsOpen ht h⟩

theorem zeroWidth_at_begins_marking : ∃ env : Env, marking.assemble = .ok env.table ∧ env.text = .ofString "<.!" ∧
    let s₀ := State.opened env.table none []
    (run env s₀).1 = .error (.fault (.zeroWidthMatch 2)) ∧
    (∃ n s m, After env s₀ n s ∧ ((nextMatch env).run s).1 = .ok (some m) ∧ FollowsBegin env s₀ n s m ∧
      env.safeMode = false ∧ 2 = env.text.byteOffset m.start) ∧
    ∃ s m, After env s₀ 2 s ∧ ((nextMatch env).run s).1 = .ok (some m) ∧
      (FollowsBegin env s₀ 2 s m → (step env 3).Ensures s
        (fun _ s' => env.safeMode = true ∧ KeepsText env s s' ∧ s'.position = m.start + 1)
        (fun halt _ => halt = .fault (.runawayLoop 3 (env.text.byteOffset m.start)) ∨
          env.safeMode = false ∧ halt = zeroWidth env m)) := by
  obtain ⟨table,htable,hkeeps,hrun⟩ := exists_keepsOpen_marking
  obtain ⟨t,s,h⟩ := hkeeps false
  have hbegins := zeroWidth_at_begins (.aloneIn false table "<.!") none []
  exact ⟨_,htable,rfl,hrun,hbegins.1 2 hrun,s,_,h.after,h.next,(hbegins.2 2 s _ h.after h.next).1⟩

/-- An empty end after a begin with characters that was ignored closes nothing, and is a fault in strict mode. -/
theorem exists_end_kept_open : ∃ table, marking.assemble = .ok table ∧
    (∀ safeMode, ∃ b m id t s, KeepsOpen (.aloneIn safeMode table "<.!") b m id t s) ∧
    (run (.aloneIn false table "<.!") (.opened table none [])).1 = .error (.fault (.zeroWidthMatch 2)) := by
  obtain ⟨table,htable,hkeeps,hrun⟩ := exists_keepsOpen_marking
  exact ⟨table,htable,fun safeMode => ⟨_,_,_,hkeeps safeMode⟩,hrun⟩

end Highlight.Scan
