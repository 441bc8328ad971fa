import CodexLb.WebsocketReader

/-!
# Waiting for the gate

The loop waits for the response-create gate with a new request in its hand. It
goes on once the holder of the gate is created, fails or is finalised, and only
the running reader can bring that about: for a request in the queue, or for one
it has taken out and not yet released. A wait on any other holder is stuck, and
stays so until the connection is given up.
-/
namespace CodexLb.WebsocketProxy
open Traffic Runs

def Loop.arriving : Loop → Bool
  | .preparing _ | .waitingContinuity | .joining _ false | .resolvingOwner _ false
  | .checking _ false | .waitingGate _ => true
  | _ => false

namespace Connection
variable {F : Type} {setup : Setup F} {s t : Connection F}

def Served (s : Connection F) (q : RequestId) : Prop := s.Running ∧ s.Mine q

def Waiting (s : Connection F) : Prop := ∃ q, s.loop = .waitingGate q

/-- The loop waits on a holder that nobody will release. -/
def Stuck (s : Connection F) : Prop := s.Waiting ∧ ∃ q, s.book.holder = some q ∧ ¬ s.Served q

/-- While the loop is on its way to the gate with a new message, the running reader
has the holder of the gate. -/
def Tended (s : Connection F) : Prop :=
  s.loop.arriving = true → ∀ p, s.book.holder = some p → s.Served p

theorem Tended.not_stuck (h : s.Tended) : ¬ s.Stuck := by
  rintro ⟨⟨q,hq⟩,p,hp,hnot⟩
  exact hnot (h (by rw [hq]; rfl) p hp)

theorem tended_of_away (h : s.loop.arriving = false) : s.Tended := by
  intro harriving
  rw [h] at harriving
  cases harriving

theorem tended_lookUpOwner {q : RequestId} {registered : Bool}
    (h : registered = false → ∀ p, s.book.holder = some p → s.Served p) :
    (s.lookUpOwner q registered).Tended := by
  cases registered with
  | true =>
    refine tended_of_away ?_
    unfold lookUpOwner
    split_ifs <;> rfl
  | false =>
    unfold lookUpOwner
    split_ifs <;> exact fun _ => h rfl

theorem reap_book : s.reap.book = s.book := by
  unfold reap
  split_ifs <;> rfl

theorem Served.reap_eq {p : RequestId} (h : s.Served p) : s.reap = s := by
  obtain ⟨⟨u,hu,hdone⟩,-⟩ := h
  simp [reap,hu,hdone]

theorem tended_proceed {q : RequestId} {registered : Bool}
    (h : registered = false → ∀ p, s.book.holder = some p → s.Served p) :
    (s.proceed q registered).Tended := by
  have hreap : registered = false → ∀ p, s.reap.book.holder = some p → s.reap.Served p := by
    intro hr p hp
    rw [reap_book] at hp
    rw [(h hr p hp).reap_eq]
    exact h hr p hp
  unfold proceed
  dsimp only
  split_ifs
  · cases registered with
    | true => exact tended_of_away rfl
    | false => exact fun _ => hreap rfl
  · exact tended_lookUpOwner hreap

theorem tended_top : s.top.Tended := by
  unfold top
  dsimp only
  split
  · exact tended_proceed (by simp)
  · exact tended_of_away rfl

theorem tended_connectOrSend {q : Option RequestId} : (s.connectOrSend q).Tended := by
  refine tended_of_away ?_
  unfold connectOrSend
  split_ifs
  · rfl
  · cases q <;> rfl

/-- The condition on a step. The loop takes up a new message when the gate is free
or a running reader has its holder in the queue. While the message is on its way
to the gate and the gate is held, the reader does not end, nor crash with requests
in its hand, and nothing comes in after which a request may be sent again. -/
def Calm (s : Connection F) : Event F → Prop
  | .loop .create =>
    ∀ p ∈ s.book.holder, p ∈ s.pending ∧ ∃ u ∈ s.upstream, u.reader ≠ .done
  | .loop _ => True
  | .reader e => s.loop.arriving = true → s.book.holder ≠ none →
      e ≠ .ended ∧ (∀ penalized, e = .crashed penalized → s.hand = []) ∧ ¬ s.Replays e

theorem loopStep_tended {e : LoopEvent F} (hs : s.Tended) (hcalm : s.Calm (.loop e))
    (h : s.step setup (.loop e) = some t) : t.Tended := by
  replace h : s.loopStep setup s.loop e = some t := h
  unfold loopStep at h
  split at h
  · cases h
  · cases h
    exact tended_of_away rfl
  · cases h
    exact tended_top
  · cases h
    exact tended_connectOrSend
  · cases h
    intro _ p hp
    obtain ⟨hmem,hrunning⟩ := hcalm p hp
    exact ⟨hrunning,.inl hmem⟩
  · rename_i hloop
    split_ifs at h
    · cases h
      exact fun _ => hs (by rw [hloop]; rfl)
    · cases h
      exact tended_proceed fun _ => hs (by rw [hloop]; rfl)
  · cases h
    exact tended_of_away rfl
  · rename_i hloop
    cases h
    exact fun _ => hs (by rw [hloop]; rfl)
  · rename_i q registered hloop
    split_ifs at h with hdone
    cases h
    refine tended_lookUpOwner fun hr p hp => ?_
    -- a reader that has the holder is not done
    obtain ⟨⟨u,hu,hrunning⟩,-⟩ := hs (by rw [hloop,hr]; rfl) p hp
    simp [hu,hrunning] at hdone
  · rename_i q registered account hloop
    cases h
    intro harriving p hp
    refine hs ?_ p ?_
    · rw [hloop]
      cases registered <;> exact harriving
    · rw [← s.book.holder_update q (fun r => {r with preferredAccountId := account})
        fun _ => ⟨rfl,rfl⟩]
      exact hp
  · cases h
    exact tended_of_away rfl
  · rename_i q registered hloop
    split_ifs at h with hconflict hregistered
    · cases h
      exact tended_of_away rfl
    · cases h
      exact tended_connectOrSend
    · rw [Bool.not_eq_true] at hregistered
      cases h
      exact fun _ => hs (by rw [hloop,hregistered]; rfl)
  · obtain ⟨b,_,rfl⟩ := Option.map_eq_some_iff.mp h
    exact tended_of_away rfl
  · cases h
    exact tended_connectOrSend
  · cases h
    exact tended_of_away rfl
  · cases h
    exact tended_of_away rfl
  · cases h
    exact tended_of_away rfl
  · cases h
    exact tended_top
  · split at h
    · cases h
      exact tended_top
    · cases h
      exact tended_of_away rfl
  · cases h
    exact tended_of_away rfl
  · cases h
    exact tended_top
  · cases h
    exact tended_top
  · cases h

theorem readerStep_tended {e : ReaderEvent} (hs : s.Tended) (hcalm : s.Calm (.reader e))
    (h : s.step setup (.reader e) = some t) : t.Tended := by
  intro hloop p hp
  cases step_moves h with
  | reads _ hr =>
    cases hr with
    | keeps hk =>
      obtain ⟨hholder,hmine⟩ := hk.covered p hp
      exact ⟨hk.running,hmine (hs (hk.loop ▸ hloop) p hholder).2⟩
    | parks hc q _ hpark =>
      exact absurd hc (hcalm (hpark.loop ▸ hloop) (by rw [hpark.held]; simp)).2.2
  | ends he ht _ =>
    subst ht
    exact absurd he (hcalm hloop fun hnone => by cases hnone.symm.trans hp).1
  | crashes penalized he hk =>
    obtain ⟨hholder,hmine⟩ := hk.covered p hp
    have hhand := (hcalm (hk.loop ▸ hloop) (by rw [hholder]; simp)).2.1 penalized he
    have hserved := (hs (hk.loop ▸ hloop) p hholder).2
    rw [Mine,hhand] at hserved
    exact ⟨hk.running,hmine hserved⟩

theorem waiting_loopStep {e : LoopEvent F} (hs : s.Waiting) (h : s.step setup (.loop e) = some t) :
    e = .leave ∨ s.book.holder = none := by
  obtain ⟨q,hq⟩ := hs
  replace h : s.loopStep setup s.loop e = some t := h
  rw [hq] at h
  cases e with
  | leave => exact .inl rfl
  | acquired =>
    obtain ⟨b,hb,_⟩ := Option.map_eq_some_iff.mp h
    unfold Book.acquire at hb
    split at hb
    · cases hb
    · split_ifs at hb with hgate
      exact .inr (s.book.holder_eq_none hgate)
  | _ => cases h

theorem Waiting.of_loop (ht : t.Waiting) (h : t.loop = s.loop) : s.Waiting := by
  obtain ⟨q,hq⟩ := ht
  exact ⟨q,h ▸ hq⟩

variable {q : RequestId}

theorem Parks.stuck (h : Parks q s t) (hs : s.Waiting) : t.Stuck := by
  refine ⟨hs.of_loop h.loop.symm,q,h.holder,fun hserved => ?_⟩
  rcases hserved.2 with hmem | hmem
  · rw [h.pending] at hmem
    cases hmem
  · rw [h.hand] at hmem
    cases hmem

variable {p : RequestId}

theorem stuck_read_done (hs : s.Waiting) (hp : s.book.holder = some p) : (s.read .done).Stuck := by
  refine ⟨hs,p,hp,?_⟩
  rintro ⟨⟨u,hu,hdone⟩,_⟩
  obtain ⟨v,_,rfl⟩ := Option.map_eq_some_iff.mp hu
  exact hdone rfl

/-- The reader leaves a holder alone that it does not have. -/
theorem Kept.stuck {extra : List RequestId} (h : Kept extra s t) (hs : s.Waiting)
    (hp : s.book.holder = some p) (hpending : p ∉ s.pending) (hextra : p ∉ extra) : t.Stuck := by
  obtain ⟨hkeep,hmine⟩ := h.frame p hpending hextra
  exact ⟨hs.of_loop h.loop.symm,p,hkeep hp,fun hserved => hmine hserved.2⟩

variable {e : Event F}

theorem running_of_step {e : ReaderEvent} (h : s.step setup (.reader e) = some t) : s.Running := by
  obtain ⟨u,hu,hstep⟩ := Option.bind_eq_some_iff.mp h
  refine ⟨u,hu,fun hdone => ?_⟩
  rw [hdone] at hstep
  cases e <;> cases hstep

/-- A stuck wait is over only when the connection is given up. -/
theorem Stuck.step (hs : s.Stuck) (h : s.step setup e = some t) (he : e ≠ .loop .leave) :
    t.Stuck := by
  obtain ⟨hwait,p,hp,hnot⟩ := hs
  cases e with
  | loop e =>
    rcases waiting_loopStep hwait h with rfl | hnone
    · exact absurd rfl he
    · rw [hp] at hnone
      cases hnone
  | reader e =>
    have hmine : ¬ s.Mine p := fun hm => hnot ⟨running_of_step h,hm⟩
    rw [Mine,not_or] at hmine
    cases step_moves h with
    | reads _ hr =>
      cases hr with
      | keeps hk => exact hk.stuck hwait hp hmine.1 hmine.2
      | parks _ q _ hpark => exact hpark.stuck hwait
    | ends _ ht _ =>
      subst ht
      exact stuck_read_done hwait hp
    | crashes _ _ hk => exact hk.stuck hwait hp hmine.1 (by simp)

theorem hand_released {u : Upstream} (hu : s.upstream = some u) {queue : List RequestId}
    {next : Next} (hr : u.reader = .busy queue next) (hq : q ∈ queue)
    (hholder : s.book.holder = some q) :
    ∃ n t, Run (Steps (Connection.step setup)) s (List.replicate n (.reader (.next false))) t ∧
      t.book.holder = none := by
  induction queue generalizing s u with
  | nil => cases hq
  | cons p queue ih =>
    have hstep : s.step setup (.reader (.next false)) =
        some ((s.release p).read (.busy queue next)) := by
      simp [Connection.step,hu,hr,readerStep,noteHealth]
    have hafter : ((s.release p).read (.busy queue next)).book.holder =
      if s.book.holder = some p then none else s.book.holder := s.book.holder_release p
    by_cases hp : s.book.holder = some p
    · rw [if_pos hp] at hafter
      exact ⟨1,_,.single hstep,hafter⟩
    · have hne : q ≠ p := by
        rintro rfl
        exact hp hholder
      rw [if_neg hp,hholder] at hafter
      have hup : ((s.release p).read (.busy queue next)).upstream =
        some {u with reader := .busy queue next} := by simp [read,release,hu]
      obtain ⟨n,t,hrun,ht⟩ := ih hup rfl ((List.mem_cons.mp hq).resolve_left hne) hafter
      exact ⟨n+1,t,.step hstep hrun,ht⟩

theorem exists_busy_of_mem_hand (hq : q ∈ s.hand) :
    ∃ u queue next, s.upstream = some u ∧ u.reader = .busy queue next ∧ q ∈ queue := by
  unfold hand at hq
  cases hu : s.upstream with
  | none =>
    rw [hu] at hq
    cases hq
  | some u =>
    rw [hu] at hq
    cases hr : u.reader with
    | busy queue next =>
      simpa [hr,Reader.hand] using hq
    | _ => simp [hr,Reader.hand] at hq

end Connection

open Connection

def sampleSetup : Setup Unit := ⟨⟨fun _ => (),fun xs => (xs,0),false⟩,false⟩

def sampleRequest : Request Unit where
  requestText := ⟨none,[],true⟩
  clientInput := []
  removed := []

def firstSent : List (Event Unit) :=
  [.loop .create,.loop (.prepared (.client 1) sampleRequest),.loop .checked,.loop .acquired,
    .loop .admitted,.loop .connected,.loop .sent]

def secondWaits : List (Event Unit) :=
  [.loop .create,.loop (.prepared (.client 2) sampleRequest),.loop .checked]

instance (s : Connection Unit) (e : ReaderEvent) : Decidable (s.Replays e) := by
  rcases e with ⟨⟩ <;> dsimp only [Replays,AllowsReplay] <;> infer_instance

instance (s : Connection Unit) (e : Event Unit) : Decidable (s.Calm e) := by
  rcases e with ⟨⟨⟩⟩ | _ <;> dsimp only [Calm] <;> infer_instance

/-- The first request is sent, and its upstream closes before the response is
created. Then the client's second request comes in. -/
def pipelinedRun : List (Event Unit) :=
  firstSent++[.reader (.closed false),.reader .ended]++secondWaits

end CodexLb.WebsocketProxy
