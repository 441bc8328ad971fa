import CodexLb.Runs
import Mathlib.Algebra.Order.Ring.Unbundled.Rat

/-!
# Keepalive frames in an event stream

`inject_sse_keepalives` asks its source for one chunk at a time in a task of its
own and waits for the task under a timeout. The steps are those of the event
loop: the call of the source is started, it completes, the timeout of the wait
fires, and the wait returns with the outcome of the task.

The timer can fire in the turn of the event loop in which the call completes.
The wait then still reports a timeout, and the next wait returns at once since
it finds a task that is done. An exception of the source is handed on unless it
is a timeout error. The handler of the wait cannot tell that error from its own
timeout.
-/
namespace CodexLb.SseKeepalive
open Runs

variable {α ε : Type*}

inductive Ending (ε : Type*) where
  | stop
  | raised (e : ε)

inductive Outcome (α ε : Type*) where
  | chunk (c : α)
  | ended (x : Ending ε)

inductive Frame (α : Type*) where
  | keepalive
  | chunk (c : α)
  deriving DecidableEq

/-- The task of a call of the source. `timed` says that the wait for it began
before the call completed, so that its timer may still fire. -/
inductive Task (α ε : Type*) where
  | running
  | done (o : Outcome α ε) (timed : Bool)

def Task.outcome? : Task α ε → Option (Outcome α ε)
  | .running => none
  | .done o _ => some o

/-- The outcomes the source has left, the task if there is one, the frames that
were yielded, and how the output ended. The counters are the calls of the source
that were started and those that completed. -/
structure State (α ε : Type*) where
  source : List (Outcome α ε)
  pending : Option (Task α ε)
  out : List (Frame α)
  ended : Option (Ending ε)
  started : ℕ
  completed : ℕ

inductive Event where
  | start | complete | timeout | resume

/-- An exception that a wait takes for its own timeout. -/
def caught (isTimeout : ε → Bool) (interval : ℚ) : Ending ε → Bool
  | .stop => false
  | .raised e => 0 < interval && isTimeout e

/-- With an interval that is not positive the source is only iterated. -/
def advance (isTimeout : ε → Bool) (interval : ℚ) (s : State α ε) : Event → Option (State α ε)
  | .start =>
    match s.ended,s.pending with
    | none,none => some {s with pending := some .running,started := s.started+1}
    | _,_ => none
  | .complete =>
    match s.pending,s.source with
    | some .running,o::rest =>
      some {s with source := rest,pending := some (.done o true),completed := s.completed+1}
    | _,_ => none
  | .timeout =>
    match s.ended,s.pending with
    | none,some .running =>
      if 0 < interval then some {s with out := s.out++[.keepalive]} else none
    | none,some (.done o true) =>
      if 0 < interval then some {s with pending := some (.done o false),out := s.out++[.keepalive]}
      else none
    | _,_ => none
  | .resume =>
    match s.ended,s.pending with
    | none,some (.done (.chunk c) _) => some {s with pending := none,out := s.out++[.chunk c]}
    | none,some (.done (.ended x) _) =>
      if caught isTimeout interval x then
        some {s with pending := some (.done (.ended x) false),out := s.out++[.keepalive]}
      else some {s with ended := some x}
    | _,_ => none

/-- No timer fires once the source has raised an exception. -/
def Prompt (s : State α ε) (e : Event) : Prop :=
  ∀ x timed, s.pending = some (.done (.ended (.raised x)) timed) → e ≠ .timeout

def outcomes (chunks : List α) (x : Ending ε) : List (Outcome α ε) :=
  chunks.map Outcome.chunk++[.ended x]

def init (chunks : List α) (x : Ending ε) : State α ε := ⟨outcomes chunks x,none,[],none,0,0⟩

def content (out : List (Frame α)) : List α := out.filterMap fun f =>
  match f with
  | .keepalive => none
  | .chunk c => some c

/-- What the output owes to a source that yields `chunks` and ends with `x`. -/
structure Faithful (step : State α ε → Event → State α ε → Prop) (chunks : List α) (x : Ending ε)
    (s : State α ε) : Prop where
  inOrder : content s.out <+: chunks
  oneCall : s.started ≤ s.completed+1
  ended : ∀ y, s.ended = some y → y = x ∧ content s.out = chunks
  /-- Once the source has ended the output can only end, in the same way. It may
  time out once more, but not when the source has raised an exception. -/
  drained : s.source = [] → ∀ e t, step s e t → t.ended = some x ∧ t.out = s.out ∨
    x = .stop ∧ e = .timeout ∧ ∀ u, ¬step t .timeout u
  /-- Until it has ended it waits for nothing but the source. -/
  live : s.ended = none → ∃ e t, e ≠ .timeout ∧ step s e t

section
variable {isTimeout : ε → Bool} {interval : ℚ} {chunks : List α} {x : Ending ε} {s t : State α ε}

def owed (s : State α ε) : List (Outcome α ε) := (s.pending.bind Task.outcome?).toList++s.source

structure Conserved (chunks : List α) (x : Ending ε) (s : State α ε) : Prop where
  total : ∃ left, content s.out++left = chunks ∧ owed s = outcomes left x
  counted : s.started = s.completed+if s.pending matches some .running then 1 else 0
  ended : ∀ y, s.ended = some y → ∃ timed, s.pending = some (.done (.ended y) timed)

variable {left : List α} {rest : List (Outcome α ε)}

theorem outcomes_chunk {c : α} (h : .chunk c::rest = outcomes left x) :
    ∃ l, left = c::l ∧ rest = outcomes l x := by
  cases left with
  | nil => simp [outcomes] at h
  | cons a l =>
    simp only [outcomes,List.map_cons,List.cons_append,List.cons.injEq,Outcome.chunk.injEq] at h
    exact ⟨l,by rw [h.1],h.2⟩

theorem outcomes_ended {y : Ending ε} (h : .ended y::rest = outcomes left x) :
    left = [] ∧ y = x ∧ rest = [] := by
  cases left with
  | nil => simpa [outcomes] using h
  | cons a l => simp [outcomes] at h

theorem Conserved.step (h : Conserved chunks x s) {e : Event}
    (hs : advance isTimeout interval s e = some t) : Conserved chunks x t := by
  obtain ⟨⟨left,hleft,howed⟩,hcounted,hend⟩ := h
  have hkeep : content (s.out++[.keepalive])++left = chunks := by
    simpa [content] using hleft
  cases e with
  | start =>
    simp only [advance] at hs
    split at hs
    · next hended hpending =>
        cases hs
        exact ⟨⟨left,hleft,by simpa [owed,hpending,Task.outcome?] using howed⟩,
          by simpa [hpending] using hcounted,by simp [hended]⟩
    · cases hs
  | complete =>
    simp only [advance] at hs
    split at hs
    · next o rest hpending hsource =>
        cases hs
        refine ⟨⟨left,hleft,by simpa [owed,hpending,hsource,Task.outcome?] using howed⟩,
          by simpa [hpending] using hcounted,fun y hy => ?_⟩
        obtain ⟨timed,hdone⟩ := hend y hy
        cases hpending.symm.trans hdone
    · cases hs
  | timeout =>
    simp only [advance] at hs
    split at hs
    · split_ifs at hs
      cases hs
      exact ⟨⟨left,hkeep,howed⟩,hcounted,hend⟩
    · next o hended hpending =>
        split_ifs at hs
        cases hs
        exact ⟨⟨left,hkeep,by simpa [owed,hpending,Task.outcome?] using howed⟩,
          by simpa [hpending] using hcounted,by simp [hended]⟩
    · cases hs
  | resume =>
    simp only [advance] at hs
    split at hs
    · next c timed hended hpending =>
        cases hs
        obtain ⟨l,rfl,hrest⟩ := outcomes_chunk (by simpa [owed,hpending,Task.outcome?] using howed)
        exact ⟨⟨l,by simpa [content] using hleft,by simpa [owed] using hrest⟩,
          by simpa [hpending] using hcounted,by simp [hended]⟩
    · next y timed hended hpending =>
        split_ifs at hs
        · cases hs
          exact ⟨⟨left,hkeep,by simpa [owed,hpending,Task.outcome?] using howed⟩,
            by simpa [hpending] using hcounted,by simp [hended]⟩
        · cases hs
          refine ⟨⟨left,hleft,howed⟩,hcounted,?_⟩
          rintro z hz
          cases hz
          exact ⟨timed,hpending⟩
    · cases hs

theorem Conserved.drained_pending (h : Conserved chunks x s) (hsource : s.source = []) :
    ∃ timed, s.pending = some (.done (.ended x) timed) := by
  obtain ⟨⟨left,-,howed⟩,-,-⟩ := h
  rw [owed,hsource,List.append_nil] at howed
  rcases hp : s.pending with _ | _ | ⟨_ | y,timed⟩
  · simp [hp,outcomes] at howed
  · simp [hp,outcomes,Task.outcome?] at howed
  · rw [hp] at howed
    obtain ⟨l,-,hl⟩ := outcomes_chunk howed
    simp [outcomes] at hl
  · rw [hp] at howed
    rw [(outcomes_ended howed).2.1]
    exact ⟨timed,rfl⟩

variable {G : State α ε → Event → Prop}

/-- A condition on the steps that rules out timeouts only, and with a source
that raises an exception those after its end. -/
theorem Conserved.faithful (hx : caught isTimeout interval x = false)
    (hG : ∀ s e, e ≠ .timeout → G s e)
    (hlate : ∀ y, x = .raised y → ∀ s timed t, s.pending = some (.done (.ended x) timed) →
      ¬restrict (Steps (advance isTimeout interval)) G s .timeout t)
    (h : Conserved chunks x s) :
    Faithful (restrict (Steps (advance isTimeout interval)) G) chunks x s := by
  have hdrained := h.drained_pending
  obtain ⟨⟨left,hleft,howed⟩,hcounted,hend⟩ := h
  refine ⟨⟨left,hleft⟩,?_,fun y hy => ?_,fun hsource e t hs => ?_,fun hrun => ?_⟩
  · rw [hcounted]
    split_ifs <;> omega
  · obtain ⟨timed,hdone⟩ := hend y hy
    rw [owed,hdone] at howed
    obtain ⟨rfl,hy,-⟩ := outcomes_ended howed
    exact ⟨hy,by simpa using hleft⟩
  · obtain ⟨timed,hpending⟩ := hdrained hsource
    cases hended : s.ended with
    | some y => cases e <;> simp [restrict,Steps,advance,hended,hpending] at hs
    | none =>
      cases e with
      | start | complete => simp [restrict,Steps,advance,hended,hpending] at hs
      | timeout =>
        refine .inr ?_
        cases x with
        | raised y => cases hlate y rfl s timed t hpending hs
        | stop =>
          refine ⟨rfl,rfl,?_⟩
          -- The task was done before, so the next wait has no time to time out.
          cases timed with
          | false => simp [restrict,Steps,advance,hended,hpending] at hs
          | true =>
            simp only [restrict,Steps,advance,hended,hpending] at hs
            obtain ⟨-,hs⟩ := hs
            split_ifs at hs
            cases hs
            simp [restrict,Steps,advance]
      | resume =>
        simp only [restrict,Steps,advance,hended,hpending,hx] at hs
        obtain ⟨-,hs⟩ := hs
        cases hs
        exact .inl ⟨rfl,rfl⟩
  · have hgo {e : Event} (he : e ≠ .timeout) (h : (advance isTimeout interval s e).isSome) :
        ∃ e t, e ≠ .timeout ∧ restrict (Steps (advance isTimeout interval)) G s e t := by
      obtain ⟨t,ht⟩ := Option.isSome_iff_exists.mp h
      exact ⟨e,t,he,hG s e he,ht⟩
    rcases hp : s.pending with _ | _ | ⟨c | y,timed⟩
    · exact hgo (e := .start) nofun (by simp [advance,hrun,hp])
    · cases hsource : s.source with
      | nil => simp [owed,hp,hsource,outcomes,Task.outcome?] at howed
      | cons o rest => exact hgo (e := .complete) nofun (by simp [advance,hp,hsource])
    · exact hgo (e := .resume) nofun (by simp [advance,hrun,hp])
    · refine hgo (e := .resume) nofun ?_
      simp only [advance,hrun,hp]
      split_ifs <;> rfl

theorem exists_run_to_end (hG : ∀ s e, e ≠ .timeout → G s e) (chunks : List α) (x : Ending ε)
    (out : List (Frame α)) (m n : ℕ) :
    ∃ es t, Run (restrict (Steps (advance isTimeout interval)) G)
        ⟨outcomes chunks x,none,out,none,m,n⟩ es t ∧
      t.source = [] ∧ t.ended = none ∧ t.pending = some (.done (.ended x) true) := by
  induction chunks generalizing out m n with
  | nil =>
    exact ⟨[.start,.complete],_,.step ⟨hG _ _ nofun,rfl⟩ (.step ⟨hG _ _ nofun,rfl⟩ (.done _)),
      rfl,rfl,rfl⟩
  | cons c cs ih =>
    obtain ⟨es,t,hrun,hend⟩ := ih (out++[.chunk c]) (m+1) (n+1)
    exact ⟨.start::.complete::.resume::es,t,.step ⟨hG _ _ nofun,rfl⟩
      (.step ⟨hG _ _ nofun,rfl⟩ (.step ⟨hG _ _ nofun,rfl⟩ hrun)),hend⟩

theorem conserved_of_run {es : List Event}
    (h : Run (restrict (Steps (advance isTimeout interval)) G) (init chunks x) es s) :
    Conserved chunks x s :=
  h.invariant (fun _ _ _ hi hs => hi.step hs.2) ⟨⟨chunks,rfl,rfl⟩,rfl,nofun⟩

end

/-- As long as no timer fires once the source has raised an exception, the output
is faithful for every pattern of timeouts exactly when the source does not raise
what a wait takes for its own timeout. With such timers it is faithful exactly
when the source raises nothing. Without an interval it always is. -/
theorem faithful_iff (isTimeout : ε → Bool) (interval : ℚ) (chunks : List α) (x : Ending ε) :
    ((∀ es s, Run (restrict (Steps (advance isTimeout interval)) Prompt) (init chunks x) es s →
      Faithful (restrict (Steps (advance isTimeout interval)) Prompt) chunks x s) ↔
        ∀ e, x = .raised e → isTimeout e = true → interval ≤ 0) ∧
    ((∀ es s, Run (restrict (Steps (advance isTimeout interval)) fun _ _ => True)
        (init chunks x) es s →
      Faithful (restrict (Steps (advance isTimeout interval)) fun _ _ => True) chunks x s) ↔
        ∀ e, x = .raised e → interval ≤ 0) := by
  have hprompt : ∀ (s : State α ε) (e : Event), e ≠ .timeout → Prompt s e := fun _ _ he _ _ _ => he
  refine ⟨⟨?_,fun h es s hrun => ?_⟩,⟨?_,fun h es s hrun => ?_⟩⟩
  · rintro h e rfl he
    by_contra hlt
    obtain ⟨es,s,hrun,hsource,hended,hpending⟩ :=
      exists_run_to_end hprompt chunks (.raised e) [] 0 0
    have hstep : advance isTimeout interval s .resume = some {s with
        pending := some (.done (.ended (.raised e)) false),out := s.out++[.keepalive]} := by
      simp [advance,hended,hpending,caught,he,not_le.mp hlt]
    rcases (h es s hrun).drained hsource .resume _ ⟨hprompt _ _ nofun,hstep⟩ with ⟨-,hsame⟩ | ⟨h,-⟩
    · simp at hsame
    · cases h
  · refine Conserved.faithful ?_ hprompt ?_ (conserved_of_run hrun)
    · cases x with
      | stop => rfl
      | raised e =>
        rw [caught,Bool.and_eq_false_iff]
        by_cases he : isTimeout e = true
        · exact .inl (decide_eq_false (not_lt.mpr (h e rfl he)))
        · exact .inr (by simpa using he)
    · rintro y rfl s timed t hpending ⟨hquiet,-⟩
      exact hquiet y timed hpending rfl
  · rintro h e rfl
    by_contra hlt
    obtain ⟨es,s,hrun,hsource,hended,hpending⟩ :=
      exists_run_to_end (fun _ _ _ => trivial) chunks (.raised e) [] 0 0
    have hstep : advance isTimeout interval s .timeout = some {s with
        pending := some (.done (.ended (.raised e)) false),out := s.out++[.keepalive]} := by
      simp [advance,hended,hpending,not_le.mp hlt]
    rcases (h es s hrun).drained hsource .timeout _ ⟨trivial,hstep⟩ with ⟨-,hsame⟩ | ⟨h,-⟩
    · simp at hsame
    · cases h
  · refine Conserved.faithful ?_ (fun _ _ _ => trivial) ?_ (conserved_of_run hrun)
    · cases x with
      | stop => rfl
      | raised e => simp [caught,not_lt.mpr (h e rfl)]
    · rintro y rfl s timed t hpending ⟨-,hs⟩
      have hzero := not_lt.mpr (h y rfl)
      cases timed <;> cases hended : s.ended <;>
        simp [Steps,advance,hpending,hended,hzero] at hs

/-- The source raises a timeout error at once. Each of the two waits after
that yields a keepalive frame, and the output has not ended. -/
theorem timeout_error_swallowed :
    ∃ s, Run (restrict (Steps (advance (fun _ : Unit => true) 15)) Prompt)
        (init ([] : List String) (.raised ())) [.start,.complete,.resume,.resume] s ∧
      s.source = [] ∧ s.ended = none ∧ s.out = [.keepalive,.keepalive] := by
  have hprompt {s : State String Unit} {e : Event} (he : e ≠ .timeout) : Prompt s e :=
    fun _ _ _ => he
  exact ⟨_,.step ⟨hprompt nofun,rfl⟩ (.step ⟨hprompt nofun,rfl⟩ (.step ⟨hprompt nofun,rfl⟩
    (.step ⟨hprompt nofun,rfl⟩ (.done _)))),rfl,rfl,rfl⟩

end CodexLb.SseKeepalive
