import CodexLb.StreamOutcome

/-!
# The trace of a stream

Every run makes its attempts first, then passes on the lines of at most one of
them, then settles. `Trace` says so of a list of acts, together with what the
settlement bills; here it is proved for the loop that retries one account.
-/
namespace CodexLb.Streams

/-- Acts before any output. -/
def Act.quiet : Act → Bool
  | .setup | .attempt _ => true
  | _ => false

def Quiet (acts : List Act) : Prop := ∀ a ∈ acts, a.quiet = true

def yields (acts : List Act) : List Line :=
  acts.filterMap fun
    | .yield l => some l
    | _ => none

/-- No upstream attempt after a line was yielded. -/
def NoReplay (acts : List Act) : Prop :=
  acts.Pairwise fun a b => ∀ l account, a = .yield l → b ≠ .attempt account

/-- What a settlement bills is what the last line says, and without one no line
that was passed on has counts. -/
def Billing (ls : List Line) (ss : List Settlement) : Prop :=
  (ss = [] ∧ ∀ l ∈ ls, l.counts = none) ∨
  ∃ s pre k, ss = [s] ∧ ls = pre++[k] ∧ k.type.terminal = true ∧ Unfinished pre ∧
    s.counts = k.billed

section Trace
variable (cfg : Config)

/-- The acts are attempts, then the lines `ls`, then the settlements `ss`. -/
structure Trace (acts : List Act) (ls : List Line) (ss : List Settlement) : Prop where
  shape : ∃ quiet, Quiet quiet ∧ acts = quiet++(ls.map .yield++ss.flatMap (settleActs cfg))
  billing : Billing ls ss

variable {cfg} {as bs : List Act}

theorem Quiet.append (ha : Quiet as) (hb : Quiet bs) : Quiet (as++bs) := by
  intro a h
  rcases List.mem_append.mp h with h | h
  · exact ha a h
  · exact hb a h

variable {account : String}

theorem quiet_attempt : Quiet [.attempt account] := by
  intro a h
  rw [List.mem_singleton.mp h]
  rfl

variable {acts : List Act} {ls : List Line} {ss : List Settlement}

theorem Trace.prepend (ha : Quiet as) (h : Trace cfg acts ls ss) : Trace cfg (as++acts) ls ss := by
  obtain ⟨⟨quiet,hq,rfl⟩,hbill⟩ := h
  exact ⟨⟨as++quiet,ha.append hq,(List.append_assoc _ _ _).symm⟩,hbill⟩

variable {a : Attempt}

theorem Trace.ended (account : String) (h : Ends a) :
    Trace cfg (attemptActs account a++settleActs cfg a.settlement) a.lines [a.settlement] := by
  obtain ⟨pre,k,hlines,hk,hpre,hbill⟩ := h
  refine ⟨⟨[.attempt account],quiet_attempt,?_⟩,
    Or.inr ⟨a.settlement,pre,k,rfl,hlines,hk,hpre,hbill⟩⟩
  simp [attemptActs]

theorem counts_of_unfinished (h : Unfinished ls) : ∀ l ∈ ls, l.counts = none := by
  intro l hl
  have hne : l.type ≠ .completed := by
    intro hc
    have hterm := h l hl
    rw [hc] at hterm
    cases hterm
  simp [Line.counts,hne]

theorem Trace.unsettled (account : String) (h : ∀ l ∈ a.lines, l.counts = none) :
    Trace cfg (attemptActs account a) a.lines [] :=
  ⟨⟨[.attempt account],quiet_attempt,by simp [attemptActs]⟩,Or.inl ⟨rfl,h⟩⟩

theorem Trace.event {l : Line} (h : Trace cfg acts ls []) (hl : l.counts = none) :
    Trace cfg (acts++[.yield l]) (ls++[l]) [] := by
  obtain ⟨⟨quiet,hq,rfl⟩,hbill⟩ := h
  rcases hbill with ⟨_,hbill⟩ | ⟨s,pre,k,hs,_⟩
  · refine ⟨⟨quiet,hq,by simp⟩,Or.inl ⟨rfl,?_⟩⟩
    intro k hk
    rcases List.mem_append.mp hk with hk | hk
    · exact hbill k hk
    · rw [List.mem_singleton.mp hk]
      exact hl
  · simp at hs

theorem Quiet.trace (h : Quiet acts) : Trace cfg acts [] [] :=
  ⟨⟨acts,h,by simp⟩,Or.inl ⟨rfl,by simp⟩⟩

theorem yields_quiet (h : Quiet acts) : yields acts = [] := by
  induction acts with
  | nil => rfl
  | cons a acts ih =>
    have htail : yields acts = [] := ih fun b hb => h b (by simp [hb])
    cases a with
    | setup | attempt _ => simpa [yields] using htail
    | yield l => simpa [Act.quiet] using h (.yield l) (by simp)
    | settle s => simpa [Act.quiet] using h (.settle s) (by simp)

theorem yields_map : yields (ls.map .yield) = ls := by
  simp [yields]

theorem mem_settlements {a : Act} (h : a ∈ ss.flatMap (settleActs cfg)) : ∃ s, a = .settle s := by
  obtain ⟨s,_,ha⟩ := List.mem_flatMap.mp h
  unfold settleActs at ha
  split_ifs at ha
  · exact ⟨s,List.mem_singleton.mp ha⟩
  · simp at ha

theorem yields_settlements : yields (ss.flatMap (settleActs cfg)) = [] := by
  refine List.filterMap_eq_nil_iff.mpr fun a ha => ?_
  obtain ⟨s,rfl⟩ := mem_settlements ha
  rfl

theorem yields_append : yields (as++bs) = yields as++yields bs :=
  List.filterMap_append

theorem Trace.yields_eq (h : Trace cfg acts ls ss) : yields acts = ls := by
  obtain ⟨⟨quiet,hq,rfl⟩,_⟩ := h
  rw [yields_append,yields_append,yields_quiet hq,yields_map,yields_settlements]
  simp

theorem Trace.noReplay (h : Trace cfg acts ls ss) : NoReplay acts := by
  obtain ⟨⟨quiet,hq,rfl⟩,_⟩ := h
  refine List.pairwise_append.mpr ⟨?_,?_,?_⟩
  · refine List.Pairwise.imp_of_mem ?_ (List.pairwise_of_forall (R := fun _ _ => True) (by simp))
    intro a b ha _ _ l account hl
    subst hl
    simpa [Act.quiet] using hq _ ha
  · refine List.Pairwise.imp_of_mem ?_ (List.pairwise_of_forall (R := fun _ _ => True) (by simp))
    intro a b _ hb _ l account _ he
    subst he
    rcases List.mem_append.mp hb with hb | hb
    · simp at hb
    · obtain ⟨s,hs⟩ := mem_settlements hb
      cases hs
  · intro a ha b _ l account hl
    subst hl
    simpa [Act.quiet] using hq _ ha

/-- What the exception a pass raises says about its acts. -/
def RaisedSound (cfg : Config) (acts : List Act) : Exc → Prop
  | .retryable _ _ _ | .failure (.proxy _) => Quiet acts
  | .terminal _ => ∃ l, Trace cfg acts [l] [] ∧ l.type.terminal = true
  | .failure _ => ∃ ls, Trace cfg acts ls [] ∧ Unfinished ls
  | .transient _ _ => False

def Pass.Sound (cfg : Config) : Pass → Prop
  | .returned acts => ∃ ls ss, Trace cfg acts ls ss ∧ Finished ls
  | .failover acts _ => Quiet acts
  | .raised acts exc => RaisedSound cfg acts exc

theorem RaisedSound.prepend (ha : Quiet as) {exc : Exc} (h : RaisedSound cfg acts exc) :
    RaisedSound cfg (as++acts) exc := by
  cases exc with
  | retryable c m x => exact ha.append h
  | transient c m => exact h
  | terminal c =>
    obtain ⟨l,ht,hl⟩ := h
    exact ⟨l,ht.prepend ha,hl⟩
  | failure g =>
    cases g with
    | proxy e => exact ha.append h
    | client m | other =>
      obtain ⟨ls,ht,hls⟩ := h
      exact ⟨ls,ht.prepend ha,hls⟩

theorem Pass.Sound.prepend (ha : Quiet as) {p : Pass} (h : p.Sound cfg) :
    (p.prepend as).Sound cfg := by
  cases p with
  | returned acts =>
    obtain ⟨ls,ss,ht,hls⟩ := h
    exact ⟨ls,ss,ht.prepend ha,hls⟩
  | failover acts e => exact ha.append h
  | raised acts exc => exact RaisedSound.prepend ha h

/-- After output an error is reported in the stream and the attempt settled. -/
theorem surfaceMidStream_sound {e : ProxyResponseError} (h : Breaks a (.proxy e)) {event : Line}
    (hevent : event.type.terminal = true) (hcounts : event.billed = none) :
    (surfaceMidStream cfg account a event).Sound cfg := by
  refine ⟨a.lines++[event],[a.settlement],⟨⟨[.attempt account],quiet_attempt,?_⟩,?_⟩,
    .snoc h.unfinished hevent⟩
  · simp [attemptActs]
  · exact Or.inr ⟨a.settlement,a.lines,event,rfl,rfl,hevent,h.unfinished,
      (h.unbilled e rfl).trans hcounts.symm⟩

theorem quiet_attemptActs (account : String) (h : a.lines = []) :
    Quiet (attemptActs account a) := by
  rw [attemptActs,h]
  exact quiet_attempt

theorem afterAttempt_sound {candidates : ℕ} (ha : Outcome a)
    {again : Option ProxyResponseError → Pass}
    (hagain : ∀ exc, Quiet (attemptActs account a) → (again exc).Sound cfg) :
    (afterAttempt cfg account candidates a again).Sound cfg := by
  rcases ha with ⟨hraised,hends⟩ | ⟨c,l,hraised,hlines,hl,hcounts⟩ |
    ⟨exc,hraised,hexc,hlines,hvis⟩ | ⟨g,hb⟩
  · simp only [afterAttempt,hraised]
    exact ⟨a.lines,[a.settlement],.ended account hends,hends.finished⟩
  · simp only [afterAttempt,hraised]
    refine ⟨l,hlines ▸ Trace.unsettled account ?_,hl⟩
    intro k hk
    rw [hlines] at hk
    rw [List.mem_singleton.mp hk]
    exact hcounts
  · have hquiet := quiet_attemptActs account hlines
    rcases hexc with ⟨c,m,x,rfl⟩ | ⟨c,m,rfl⟩
    · simp only [afterAttempt,hraised]
      exact hquiet
    · simp only [afterAttempt,hraised,hvis]
      exact hagain none hquiet
  · cases g with
    | client m | other =>
      simp only [afterAttempt,hb.raised]
      exact ⟨a.lines,.unsettled account (counts_of_unfinished hb.unfinished),hb.unfinished⟩
    | proxy e =>
      simp only [afterAttempt,hb.raised]
      split_ifs with hvis h500 hneutral hfailover
      · exact surfaceMidStream_sound hb rfl rfl
      all_goals have hquiet := quiet_attemptActs account (hb.visible (by simpa using hvis))
      · exact hagain (some e) hquiet
      all_goals exact hquiet

theorem transientLoop_sound (cfg : Config) (account : String) (candidates : ℕ) {tries : ℕ → Try}
    (hwf : ∀ i, (tries i).run.WellFormed) (left i : ℕ) :
    (transientLoop cfg account candidates tries left i).Sound cfg := by
  induction left generalizing i with
  | zero =>
    exact afterAttempt_sound (streamOnce_outcome _ _ (hwf i)) fun _ hquiet => hquiet
  | succ n ih =>
    rw [transientLoop]
    refine afterAttempt_sound (streamOnce_outcome _ _ (hwf i)) fun _ hquiet => ?_
    split_ifs
    · exact (ih (i+1)).prepend hquiet
    · exact hquiet

end Trace

end CodexLb.Streams
