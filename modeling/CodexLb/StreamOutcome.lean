import CodexLb.StreamRetry

/-!
# What one attempt passes on

An attempt passes on lines that end in one terminal event, or it raises before
one. The settlement record bills the counts of the terminal event it passed on,
as far as the event was parsed.
-/
namespace CodexLb.Streams
open EventType

def Finished (ls : List Line) : Prop := ∃ pre l, ls = pre++[l] ∧ l.type.terminal = true ∧
  ∀ k ∈ pre, k.type.terminal = false

def Unfinished (ls : List Line) : Prop := ∀ k ∈ ls, k.type.terminal = false

variable {l : Line}

theorem Finished.single (hl : l.type.terminal = true) : Finished [l] :=
  ⟨[],l,rfl,hl,by simp⟩

variable {ls : List Line}

theorem Finished.snoc (h : Unfinished ls) (hl : l.type.terminal = true) :
    Finished (ls++[l]) := ⟨ls,l,rfl,hl,h⟩

theorem Unfinished.cons (hl : l.type.terminal = false) (h : Unfinished ls) :
    Unfinished (l::ls) := by
  intro j hj
  rcases List.mem_cons.mp hj with rfl | hj
  · exact hl
  · exact h j hj

section Once
variable (q : Request) (f : Flags)

def raisedBy : Option Failure → Option Exc
  | none => none
  | some g => (raisedAttempt q f ⟨true,none,"",none,false,false,false,none⟩ g).raised

theorem raisedAttempt_raised (p : Progress) (g : Failure) :
    (raisedAttempt q f p g).raised = raisedBy q f (some g) := by
  cases g with
  | proxy e =>
    simp only [raisedBy,raisedAttempt]
    split <;> rfl
  | client m | other => rfl

theorem normalizeRawError_terminal (p : Progress) (l : Line) :
    (normalizeRawError p l).type.terminal = l.type.terminal := by
  unfold normalizeRawError
  split_ifs with h
  · simp only [Bool.and_eq_true,decide_eq_true_eq] at h
    rw [h.1]
    rfl
  · rfl

theorem counts_settlement {p : Progress} :
    p.settlement.counts = if p.success then p.usage.bind Usage.counts else none := by
  cases hu : p.usage with
  | none | some u => simp [Progress.settlement,Settlement.counts,Usage.counts,hu]

def Line.billed (l : Line) : Option (ℤ × ℤ × ℤ) := if l.parsed then l.counts else none

theorem readFailure_spec (p : Progress) (l : Line) (id : Option String)
    (hl : l.type = .failed ∨ l.type = .error) :
    (readFailure q f p l id).2.type.terminal = true ∧
      (readFailure q f p l id).2.billed = none ∧ (readFailure q f p l id).1.success = false ∧
      (readFailure q f p l id).1.visible = p.visible := by
  unfold readFailure
  split
  · exact ⟨rfl,rfl,rfl,rfl⟩
  · rcases hl with hl | hl <;>
      exact ⟨by simp [hl,terminal],by simp [Line.billed,Line.counts,hl],rfl,rfl⟩

/-- The effect of a parsed line: other lines change nothing here, a terminal
line leaves the counts to bill. -/
theorem readLine_spec (p : Progress) (l : Line) : (readLine q f p l).1.visible = p.visible ∧
      (readLine q f p l).2.type.terminal = l.type.terminal ∧
      (l.type.terminal = false → readLine q f p l = (p,l)) ∧
      (l.parsed = true → l.type.terminal = true → p.success = true →
        (readLine q f p l).1.settlement.counts = (readLine q f p l).2.billed) := by
  unfold readLine
  cases ht : l.type with
  | failed | error =>
    obtain ⟨hterm,hbilled,hsucc,hvis⟩ := readFailure_spec q f p l _ (by simp [ht])
    refine ⟨hvis,hterm,by simp [terminal],fun _ _ _ => ?_⟩
    rw [hbilled,counts_settlement,hsucc]
    rfl
  | completed =>
    split_ifs
    · refine ⟨rfl,rfl,by simp [terminal],fun _ _ _ => ?_⟩
      rfl
    · refine ⟨rfl,by rw [ht],by simp [terminal],fun hl _ hs => ?_⟩
      simp [counts_settlement,noteEnd,Line.billed,Line.counts,ht,hs,hl]
  | incomplete =>
    refine ⟨rfl,by simp only [ht],by simp [terminal],fun _ _ _ => ?_⟩
    simp [counts_settlement,Line.billed,Line.counts,ht]
  | textDelta | textDone | itemDone | other =>
    exact ⟨rfl,by simp only [ht],fun _ => rfl,by simp [terminal]⟩

variable {l : Line}

theorem not_terminal_of_itemDone (h : l.type = .itemDone) : l.type.terminal = false := by
  rw [h]
  rfl

/-- What the bookkeeping says about billing before a terminal line. -/
def Unbilled (p : Progress) : Prop := p.success = true ∧ p.usage = none

variable {p : Progress}

/-- The loop drops a line that is not terminal, or passes one on. The line
passed on is terminal exactly when the one it read is. -/
theorem restOfStream_cons (raises : Option Failure) (hp : Unbilled p) (l : Line) (ls : List Line) :
    (∃ p', restOfStream q f raises p (l::ls) = restOfStream q f raises p' ls ∧
      l.type.terminal = false ∧ p'.visible = p.visible ∧ Unbilled p') ∨
    (∃ p' k, restOfStream q f raises p (l::ls) = (restOfStream q f raises p' ls).cons k ∧
      k.type.terminal = l.type.terminal ∧ p'.visible = true ∧
      (l.type.terminal = false → Unbilled p') ∧
      (l.type.terminal = true → p'.settlement.counts = k.billed)) := by
  have hraw := normalizeRawError_terminal p l
  have hnote : Unbilled (noteLine p (normalizeRawError p l)) := hp
  obtain ⟨hvis,hterm,hsame,hbill⟩ :=
    readLine_spec q f (noteLine p (normalizeRawError p l)) (normalizeRawError p l)
  rw [restOfStream]
  simp only []
  split_ifs with hsup hparsed hdup hdup
  · left
    simp only [shouldSuppressTextDoneEvent,Bool.and_eq_true,decide_eq_true_eq] at hsup
    refine ⟨_,rfl,?_,rfl,hnote⟩
    rw [← hraw,hsup.2]
    rfl
  · left
    simp only [Bool.and_eq_true,decide_eq_true_eq] at hdup
    have hnot : (normalizeRawError p l).type.terminal = false := by
      rw [← hterm]
      exact not_terminal_of_itemDone hdup.1
    refine ⟨_,rfl,hraw ▸ hnot,hvis,?_⟩
    rw [hsame hnot]
    exact hnote
  · right
    refine ⟨_,_,rfl,hterm.trans hraw,rfl,?_,?_⟩
    · intro hl
      rw [hsame (hraw.trans hl)]
      exact hnote
    · intro hl
      rw [← hbill hparsed (hraw.trans hl) hnote.1,counts_settlement,counts_settlement]
  · left
    simp only [Bool.and_eq_true,decide_eq_true_eq] at hdup
    refine ⟨_,rfl,?_,rfl,hnote⟩
    rw [← hraw]
    exact not_terminal_of_itemDone hdup.1
  · right
    refine ⟨_,_,rfl,hraw,rfl,fun _ => hnote,fun _ => ?_⟩
    simp [counts_settlement,Line.billed,hparsed,noteLine,hp.2]

/-- The attempt passed on one terminal event, and its settlement bills it. -/
def Ends (a : Attempt) : Prop := ∃ pre k, a.lines = pre++[k] ∧ k.type.terminal = true ∧
  Unfinished pre ∧ a.settlement.counts = k.billed

variable {a : Attempt}

theorem Ends.finished (h : Ends a) : Finished a.lines := by
  obtain ⟨pre,k,hl,hk,hpre,_⟩ := h
  exact ⟨pre,k,hl,hk,hpre⟩

theorem Ends.cons (hl : l.type.terminal = false) (h : Ends a) : Ends (a.cons l) := by
  obtain ⟨pre,k,hlines,hk,hpre,hbill⟩ := h
  exact ⟨l::pre,k,by simp [Attempt.cons,hlines],hk,hpre.cons hl,hbill⟩

theorem Ends.serverError (code message id : String) {s : Settlement} (hs : s.success = false)
    (raised : Option Exc) : Ends ⟨[serverError code message id],s,raised⟩ := by
  refine ⟨[],_,rfl,rfl,by simp [Unfinished],?_⟩
  simp only [Settlement.counts,hs]
  rfl

/-- The attempt passed on no terminal event before it raised. What it says
about output is what it passed on. -/
structure Breaks (a : Attempt) (g : Failure) : Prop where
  raised : a.raised = some (.failure g)
  unfinished : Unfinished a.lines
  visible : a.settlement.downstreamVisible = false → a.lines = []
  unbilled : ∀ e, g = .proxy e → a.settlement.counts = none

theorem Breaks.cons {g : Failure} (hl : l.type.terminal = false)
    (hv : a.settlement.downstreamVisible = true) (h : Breaks a g) : Breaks (a.cons l) g := by
  refine ⟨h.raised,h.unfinished.cons hl,?_,h.unbilled⟩
  intro hno
  rw [show (a.cons l).settlement = a.settlement from rfl,hv] at hno
  cases hno

theorem raisedAttempt_spec (g : Failure) :
    (raisedAttempt q f p g).raised = none ∧ Ends (raisedAttempt q f p g) ∨
      Breaks (raisedAttempt q f p g) g ∧
        (raisedAttempt q f p g).settlement.downstreamVisible = p.visible := by
  cases g with
  | proxy e =>
    simp only [raisedAttempt]
    split
    · exact Or.inl ⟨rfl,.serverError _ _ _ rfl none⟩
    · exact Or.inr ⟨⟨rfl,by simp [Unfinished],fun _ => rfl,fun _ _ => by simp [counts_settlement]⟩,
        rfl⟩
  | client m | other =>
    exact Or.inr ⟨⟨rfl,by simp [raisedAttempt,Unfinished],fun _ => rfl,by simp⟩,rfl⟩

variable {ls : List Line}

theorem restOfStream_end (hp : Unbilled p) (hls : Finished ls) :
    (restOfStream q f none p ls).raised = none ∧ Ends (restOfStream q f none p ls) := by
  induction ls generalizing p with
  | nil =>
    obtain ⟨pre,l,h,_⟩ := hls
    simp at h
  | cons l ls ih =>
    obtain ⟨pre,last,he,hlast,hpre⟩ := hls
    cases pre with
    | nil =>
      obtain ⟨rfl,rfl⟩ := he
      rcases restOfStream_cons q f none hp l [] with ⟨_,_,hno,_⟩ | ⟨p',k,h,hk,_,_,hbill⟩
      · rw [hlast] at hno
        cases hno
      · rw [h]
        exact ⟨rfl,[],k,rfl,hk.trans hlast,by simp [Unfinished],hbill hlast⟩
    | cons m pre =>
      simp only [List.cons_append,List.cons.injEq] at he
      obtain ⟨rfl,rfl⟩ := he
      have hl : l.type.terminal = false := hpre l (by simp)
      have hrest : Finished (pre++[last]) :=
        ⟨pre,last,rfl,hlast,fun k hk => hpre k (by simp [hk])⟩
      rcases restOfStream_cons q f none hp l (pre++[last]) with
        ⟨p',h,_,_,hp'⟩ | ⟨p',k,h,hk,_,hp',_⟩
      · rw [h]
        exact ih hp' hrest
      · rw [h]
        obtain ⟨hraised,hends⟩ := ih (hp' hl) hrest
        exact ⟨hraised,hends.cons (hk.trans hl)⟩

theorem restOfStream_break (g : Failure) (hp : Unbilled p) (hls : Unfinished ls) :
    (restOfStream q f (some g) p ls).raised = none ∧ Ends (restOfStream q f (some g) p ls) ∨
      Breaks (restOfStream q f (some g) p ls) g ∧ (p.visible = true →
        (restOfStream q f (some g) p ls).settlement.downstreamVisible = true) := by
  induction ls generalizing p with
  | nil =>
    refine (raisedAttempt_spec q f (p := p) g).imp_right ?_
    rintro ⟨hb,hv⟩
    exact ⟨hb,fun h => hv.trans h⟩
  | cons l ls ih =>
    have hl : l.type.terminal = false := hls l (by simp)
    have hrest : Unfinished ls := fun k hk => hls k (by simp [hk])
    rcases restOfStream_cons q f (some g) hp l ls with ⟨p',h,_,hv,hp'⟩ | ⟨p',k,h,hk,hv,hp',_⟩
    · rw [h,← hv]
      exact ih hp' hrest
    · rw [h]
      rcases ih (hp' hl) hrest with ⟨hraised,hends⟩ | ⟨hb,hvis⟩
      · exact Or.inl ⟨hraised,hends.cons (hk.trans hl)⟩
      · exact Or.inr ⟨hb.cons (hk.trans hl) (hvis hv),fun _ => hvis hv⟩

theorem restOfStream_raised (raises : Option Failure) (p : Progress) (ls : List Line) :
    (restOfStream q f raises p ls).raised = raisedBy q f raises := by
  induction ls generalizing p with
  | nil =>
    cases raises with
    | none => rfl
    | some g => exact raisedAttempt_raised q f p g
  | cons l ls ih =>
    rw [restOfStream]
    simp only []
    split_ifs <;> exact ih _

inductive Outcome (a : Attempt) : Prop
  | ended (hraised : a.raised = none) (h : Ends a)
  | failedFirst (c : String) (l : Line) (hraised : a.raised = some (.terminal c))
      (hlines : a.lines = [l]) (hl : l.type.terminal = true) (hcounts : l.counts = none)
  | retry (exc : Exc) (hraised : a.raised = some exc)
      (hexc : (∃ c m x, exc = .retryable c m x) ∨ ∃ c m, exc = .transient c m)
      (hlines : a.lines = []) (hvisible : a.settlement.downstreamVisible = false)
  | broke (g : Failure) (h : Breaks a g)

theorem readFirstFailure_spec (p : Progress) (l : Line) (id : String)
    (hl : l.type = .failed ∨ l.type = .error) :
    (∃ exc, readFirstFailure q f p l id = .error exc ∧
      ((∃ c m x, exc = .retryable c m x) ∨ ∃ c m, exc = .transient c m) ∧
      (f.allowRetry = true ∨ f.allowTransientRetry = true)) ∨
    (∃ p' k c, readFirstFailure q f p l id = .ok (p',k,some (.terminal c)) ∧
      k.type.terminal = true ∧ k.counts = none) := by
  have hterm : l.type.terminal = true := by rcases hl with hl | hl <;> simp [hl,terminal]
  have hcounts : l.counts = none := by rcases hl with hl | hl <;> simp [Line.counts,hl]
  unfold readFirstFailure
  simp only []
  split
  · exact Or.inr ⟨_,_,_,rfl,rfl,rfl⟩
  · split_ifs with hidle hrecover htransient
    · simp only [Bool.and_eq_true] at hidle
      exact Or.inl ⟨_,rfl,Or.inl ⟨_,_,_,rfl⟩,Or.inl hidle.1⟩
    · simp only [Bool.and_eq_true] at hrecover
      exact Or.inl ⟨_,rfl,Or.inl ⟨_,_,_,rfl⟩,Or.inl hrecover.1⟩
    · simp only [Bool.and_eq_true] at htransient
      exact Or.inl ⟨_,rfl,Or.inr ⟨_,_,rfl⟩,Or.inr htransient.1.1⟩
    · exact Or.inr ⟨_,_,_,rfl,hterm,hcounts⟩

theorem readFirst_ok (hp : Unbilled p) (l : Line)
    (hl : l.parsed = true → l.type ≠ .failed ∧ l.type ≠ .error) :
    ∃ p', readFirst q f p l = .ok (p',l,none) ∧
      (l.type.terminal = false → Unbilled p') ∧
      (l.type.terminal = true → p'.settlement.counts = l.billed) := by
  unfold readFirst
  cases hparsed : l.parsed with
  | false =>
    refine ⟨p,rfl,fun _ => hp,fun _ => ?_⟩
    simp [counts_settlement,hp.2,Line.billed,hparsed]
  | true =>
    obtain ⟨hnf,hne⟩ := hl hparsed
    cases ht : l.type with
    | failed => exact absurd ht hnf
    | error => exact absurd ht hne
    | completed =>
      refine ⟨_,rfl,by simp [terminal],fun _ => ?_⟩
      simp [counts_settlement,Line.billed,Line.counts,hparsed,ht,hp.1]
    | incomplete =>
      refine ⟨_,rfl,by simp [terminal],fun _ => ?_⟩
      simp [counts_settlement,Line.billed,Line.counts,ht]
    | textDelta | textDone | itemDone | other =>
      exact ⟨_,rfl,fun _ => hp,by simp [terminal]⟩

theorem readFirst_failure (p : Progress) (hparsed : l.parsed = true)
    (hl : l.type = .failed ∨ l.type = .error) :
    (∃ exc, readFirst q f p l = .error exc ∧
      ((∃ c m x, exc = .retryable c m x) ∨ ∃ c m, exc = .transient c m) ∧
      (f.allowRetry = true ∨ f.allowTransientRetry = true)) ∨
    (∃ p' k c, readFirst q f p l = .ok (p',k,some (.terminal c)) ∧
      k.type.terminal = true ∧ k.counts = none) := by
  unfold readFirst
  simp only [hparsed,Bool.not_true,Bool.false_eq_true,if_false]
  rcases hl with ht | ht
  · simp only [ht]
    exact readFirstFailure_spec q f _ l _ (Or.inl ht)
  · simp only [ht]
    exact readFirstFailure_spec q f _ l _ (Or.inr ht)

theorem passOn_raised (raises : Option Failure) (p : Progress) (l : Line) (ls : List Line) :
    (passOn q f raises p l ls).raised = raisedBy q f raises := by
  unfold passOn
  split_ifs <;> exact restOfStream_raised q f raises _ ls

variable {raises : Option Failure}

theorem restOfStream_outcome (hp : Unbilled p) (hwf : UpstreamRun.WellFormed ⟨ls,raises⟩) :
    ((restOfStream q f raises p ls).raised = none ∧ Ends (restOfStream q f raises p ls)) ∨
      ∃ g, Breaks (restOfStream q f raises p ls) g ∧ (p.visible = true →
        (restOfStream q f raises p ls).settlement.downstreamVisible = true) := by
  rcases hwf with ⟨hnone,hls⟩ | ⟨hsome,hls⟩
  · cases hnone
    exact Or.inl (restOfStream_end q f hp hls)
  · cases raises with
    | none => exact absurd rfl hsome
    | some g => exact (restOfStream_break q f g hp hls).imp_right fun h => ⟨g,h⟩

theorem UpstreamRun.WellFormed.of_terminal (h : UpstreamRun.WellFormed ⟨l::ls,raises⟩)
    (hl : l.type.terminal = true) : raises = none ∧ ls = [] := by
  rcases h with ⟨hnone,pre,last,he,_,hpre⟩ | ⟨_,hall⟩
  · cases pre with
    | nil =>
      simp only [List.nil_append,List.cons.injEq] at he
      exact ⟨hnone,he.2⟩
    | cons m pre =>
      simp only [List.cons_append,List.cons.injEq] at he
      have hm := hpre m (by simp)
      rw [← he.1,hl] at hm
      cases hm
  · have hm := hall l (by simp)
    rw [hl] at hm
    cases hm

theorem UpstreamRun.WellFormed.tail (h : UpstreamRun.WellFormed ⟨l::ls,raises⟩)
    (hl : l.type.terminal = false) : UpstreamRun.WellFormed ⟨ls,raises⟩ := by
  rcases h with ⟨hnone,pre,last,he,hlast,hpre⟩ | ⟨hsome,hall⟩
  · cases pre with
    | nil =>
      simp only [List.nil_append,List.cons.injEq] at he
      rw [he.1,hlast] at hl
      cases hl
    | cons m pre =>
      simp only [List.cons_append,List.cons.injEq] at he
      exact Or.inl ⟨hnone,pre,last,he.2,hlast,fun k hk => hpre k (by simp [hk])⟩
  · exact Or.inr ⟨hsome,fun k hk => hall k (by simp [hk])⟩

theorem passOn_outcome (hwf : UpstreamRun.WellFormed ⟨l::ls,raises⟩)
    (hopen : l.type.terminal = false → Unbilled p)
    (hlast : l.type.terminal = true → p.settlement.counts = l.billed) :
    Outcome (passOn q f raises p l ls) := by
  cases hterm : l.type.terminal with
  | true =>
    obtain ⟨rfl,rfl⟩ := hwf.of_terminal hterm
    have hdone : l.type ≠ .textDone := by
      intro h
      rw [h] at hterm
      cases hterm
    have hitem : l.type ≠ .itemDone := by
      intro h
      rw [h] at hterm
      cases hterm
    have he : passOn q f none p l [] = (restOfStream q f none {p with visible := true} []).cons l := by
      simp [passOn,shouldSuppressTextDoneEvent,hdone,hitem]
    rw [he]
    refine .ended rfl ⟨[],l,rfl,hterm,by simp [Unfinished],?_⟩
    rw [← hlast hterm]
    exact (counts_settlement).trans (counts_settlement).symm
  | false =>
    have hp := hopen hterm
    have hrest := hwf.tail hterm
    unfold passOn
    split_ifs with hsup hdup
    · rcases restOfStream_outcome q f hp hrest with ⟨hraised,hends⟩ | ⟨g,hb,_⟩
      · exact .ended hraised hends
      · exact .broke g hb
    · have hp' : Unbilled {p with suppressedDuplicate := true} := hp
      rcases restOfStream_outcome q f hp' hrest with ⟨hraised,hends⟩ | ⟨g,hb,_⟩
      · exact .ended hraised hends
      · exact .broke g hb
    · have hp' : Unbilled {p with visible := true} := hp
      rcases restOfStream_outcome q f hp' hrest with ⟨hraised,hends⟩ | ⟨g,hb,hv⟩
      · exact .ended hraised (hends.cons hterm)
      · exact .broke g (hb.cons hterm (hv rfl))

theorem streamOnce_outcome {run : UpstreamRun} (hwf : run.WellFormed) :
    Outcome (streamOnce q f run) := by
  obtain ⟨lines,raises⟩ := run
  cases lines with
  | nil =>
    cases raises with
    | none => exact .ended rfl (.serverError _ _ _ rfl none)
    | some g =>
      cases g with
      | client m =>
        cases hretry : f.allowRetry with
        | true =>
          simp only [streamOnce,hretry]
          exact .retry _ rfl (Or.inl ⟨_,_,_,rfl⟩) rfl rfl
        | false =>
          simp only [streamOnce,hretry]
          exact .ended rfl (.serverError _ _ _ rfl none)
      | proxy e =>
        rcases raisedAttempt_spec q f (p := ⟨true,none,q.requestId,q.serviceTier,false,false,
          false,none⟩) (.proxy e) with ⟨hraised,hends⟩ | ⟨hb,_⟩
        · exact .ended hraised hends
        · exact .broke _ hb
      | other =>
        rcases raisedAttempt_spec q f (p := ⟨true,none,q.requestId,q.serviceTier,false,false,
          false,none⟩) .other with ⟨hraised,hends⟩ | ⟨hb,_⟩
        · exact .ended hraised hends
        · exact .broke _ hb
  | cons l ls =>
    simp only [streamOnce]
    by_cases hfail : l.parsed = true ∧ (l.type = .failed ∨ l.type = .error)
    · rcases readFirst_failure q f _ hfail.1 hfail.2 with ⟨exc,he,hexc,_⟩ | ⟨p',k,c,he,hk,hc⟩
      · rw [he]
        exact .retry exc rfl hexc rfl rfl
      · rw [he]
        exact .failedFirst c k rfl rfl hk hc
    · have hl : l.parsed = true → l.type ≠ .failed ∧ l.type ≠ .error := by
        intro hparsed
        refine ⟨fun h => hfail ⟨hparsed,Or.inl h⟩,fun h => hfail ⟨hparsed,Or.inr h⟩⟩
      obtain ⟨p',he,hopen,hlast⟩ := readFirst_ok q f
        (p := ⟨true,none,q.requestId,l.serviceTier.orElse fun _ => q.serviceTier,false,false,
          false,none⟩) ⟨rfl,rfl⟩ l hl
      rw [he]
      refine passOn_outcome q f hwf hopen fun hterm => ?_
      rw [← hlast hterm]
      exact (counts_settlement).trans (counts_settlement).symm

end Once

end CodexLb.Streams
