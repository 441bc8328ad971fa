import CodexLb.BridgeEviction
import CodexLb.BridgeSlotRuns

/-!
# Single flight and the capacity of the bridge

Every run of calls, closes and prunings whose steps reserve and are calm keeps
one creation for a key, stores a session where none is live, stays within
`max_sessions`, and closes no session for room or age that has a request.
-/
namespace CodexLb.Bridge
open Runs Registry

namespace Watch
variable {env : Env} {s : Watch} {t : World} {i : ℕ} {run : Running} {e : Event} {p q : Phase}

/-- The session is one that was chosen, or one this step finds idle. -/
def Found (s : Watch) (e : Event) (sid : ℕ) : Prop :=
  sid ∈ s.chosen ∨ ∃ row ∈ s.world.lookedAt e,row.2 = sid ∧ s.looksIdle sid = true

variable {sid : ℕ}

theorem mem_chosen (hrun : s.world.calls.get? i = some run)
    (h : sid ∈ run.phase.collected s.world.registry) : sid ∈ s.chosen :=
  List.mem_append_right _ (List.mem_flatMap.mpr ⟨(i,run),Dict.get?_eq_some.mp hrun,h⟩)

variable {x : Session}

theorem looksIdle_of_closed (hx : s.world.registry.heap.get? sid = some x)
    (hclosed : x.closed = true) :
    s.looksIdle sid = true := by simp [looksIdle,hx,hclosed]

theorem looksIdle_of_pending (hx : s.world.registry.heap.get? sid = some x)
    (hpending : x.pendingCount = 0) :
    s.looksIdle sid = true := by simp [looksIdle,hx,hpending]

variable {now : ℤ} {r : Registry}

theorem stale_pending (h : r.isStale now sid = true) :
    ∃ x, r.heap.get? sid = some x ∧ x.pendingCount = 0 := by
  unfold Registry.isStale at h
  cases hx : r.heap.get? sid with
  | none => simp [hx] at h
  | some x =>
    simp only [hx,Option.any_some,Bool.and_eq_true,decide_eq_true_eq] at h
    exact ⟨x,rfl,h.1⟩

variable {l : Locals} {key : SessionKey} {rows : List (SessionKey × ℕ)}

theorem found_scan (h : Located s.world) {j : ℕ} {stale : List SessionKey}
    (hrun : s.world.calls.get? i = some run)
    (hp : run.phase = .scanning l now ((key,j)::rows) stale)
    (hsid : sid ∈ (scanFrom s.world.registry l now rows (if s.world.registry.isStale now j then
      stale++[key] else stale)).collected s.world.registry) : s.Found (.scan i) sid := by
  have hstored := h i run hrun
  rw [hp] at hstored
  have hlooked : s.world.lookedAt (.scan i) = (key,j)::rows := by
    simp [World.lookedAt,hrun,hp,Phase.rows]
  obtain ⟨k,hk,hfrom⟩ := scanFrom_collected hsid
  have hrow : ∀ m, (k,m) ∈ (key,j)::rows → m = sid := by
    intro m hm
    have hm := Dict.get?_eq_some.mpr (hstored.2 hm)
    rw [hk] at hm
    exact (Option.some.inj hm).symm
  rcases hfrom with hstale | ⟨m,x,hmem,hx,hclosed⟩
  · have hold : k ∈ stale → s.Found (.scan i) sid := by
      intro hold
      refine .inl (mem_chosen hrun ?_)
      rw [hp]
      exact List.mem_filterMap.mpr ⟨k,hold,hk⟩
    split_ifs at hstale with hidle
    · rcases List.mem_append.mp hstale with hmem | hnew
      · exact hold hmem
      · rw [List.mem_singleton] at hnew
        subst hnew
        have hj := hrow j List.mem_cons_self
        subst hj
        obtain ⟨x,hx,hzero⟩ := stale_pending hidle
        exact .inr ⟨_,hlooked ▸ List.mem_cons_self,rfl,looksIdle_of_pending hx hzero⟩
    · exact hold hstale
  · have hm := hrow m (List.mem_cons_of_mem _ hmem)
    subst hm
    exact .inr ⟨_,hlooked ▸ List.mem_cons_of_mem _ hmem,rfl,looksIdle_of_closed hx hclosed⟩

/-- The scan begins with the closed sessions it passes over. -/
theorem found_acquired (halias : resolveAlias env run.call key s.world.registry = .proceed r l)
    (hsound : Sound s.world.registry r)
    (hsid : sid ∈ (scanFrom r l now r.sessions.rows []).collected r) :
    s.Found (.acquire i now) sid := by
  obtain ⟨k,hk,hfrom⟩ := scanFrom_collected hsid
  rcases hfrom with hstale | ⟨m,x,hmem,hx,hclosed⟩
  · cases hstale
  · have hm := Dict.get?_eq_some.mpr hmem
    rw [hk] at hm
    cases hm
    have hold := resolveAlias_closed halias sid
    rw [hx,Option.map_some,hclosed] at hold
    obtain ⟨y,hy,hyclosed⟩ := Option.map_eq_some_iff.mp hold.symm
    have hrow : (k,sid) ∈ s.world.lookedAt (.acquire i now) :=
      List.mem_filter.mpr ⟨hsound.sessions.subset hmem,by simp [hy,hyclosed]⟩
    exact .inr ⟨(k,sid),hrow,rfl,looksIdle_of_closed hy hyclosed⟩

theorem found_weigh {row : SessionKey × ℕ} {idle : List (SessionKey × ℕ)}
    (hrun : s.world.calls.get? i = some run) (hp : run.phase = .weighing l (row::rows) idle)
    {a : SessionKey × ℕ} (ha : a ∈ s.world.registry.weigh row idle) : s.Found (.weigh i) a.2 := by
  rcases mem_weigh ha with hold | ⟨rfl,x,hx,hzero⟩
  · refine .inl (mem_chosen hrun ?_)
    rw [hp]
    exact List.mem_map.mpr ⟨a,hold,rfl⟩
  · refine .inr ⟨a,?_,rfl,looksIdle_of_pending hx hzero⟩
    simp [World.lookedAt,hrun,hp,Phase.rows]

theorem found_own (h : Located s.world) (hw : Coherent s.world)
    (hrun : s.world.calls.get? i = some run) (hp : run.phase = p)
    (hstep : CallStep env s.world i run e p q t) (hsid : sid ∈ q.collected t.registry) :
    s.Found e sid := by
  have hregistry := hstep.registry hw hrun hp
  have hplain : q.Plain → s.Found e sid := by
    intro hq
    rw [hq.collected] at hsid
    cases hsid
  cases hstep with
  | acquired hfree halias =>
    rcases hregistry with hsound | ⟨_,_,_,hl,-⟩ | ⟨_,hl,-⟩
    · exact found_acquired halias hsound hsid
    · cases hl
    · cases hl
  | scan => exact found_scan h hrun hp hsid
  | prune =>
    obtain ⟨key,hkey,hget⟩ := List.mem_filterMap.mp hsid
    refine .inl (mem_chosen hrun ?_)
    rw [hp]
    refine List.mem_filterMap.mpr ⟨key,List.mem_cons_of_mem _ hkey,?_⟩
    exact Dict.get?_eq_some.mpr ((sound_pruneKey _ _).sessions.subset (Dict.get?_eq_some.mp hget))
  | select => exact hplain (selectExisting_plain _ _ _ _ _)
  | owner => exact hplain (lookupPrevious_plain _ _ _ _ _ _)
  | refreshed => exact hplain (continuityOrCapacity_plain _ _ _)
  | weigh =>
    obtain ⟨a,ha,rfl⟩ := List.mem_map.mp hsid
    exact found_weigh hrun hp ha
  | close hclose =>
    refine .inl (mem_chosen hrun ?_)
    rw [hp,← (closeStep_gives hclose).2,← collected_congr (sessions_closeStage _ _ _)]
    exact hsid
  | proceed =>
    rw [(dispatch_gives _ _).2] at hsid
    cases hsid
  | cancel hcancel => exact hplain (cancelTo_plain hcancel)
  | _ => cases hsid

theorem found_evicted (hrun : s.world.calls.get? i = some run) (hp : run.phase = p)
    (hstep : CallStep env s.world i run e p q t) {a : ℕ × ℕ} (ha : a ∈ s.world.evictedBy e) :
    s.Found e a.2 := by
  unfold World.evictedBy at ha
  split at ha
  · rename_i j
    split at ha
    · rename_i c l row idle hcall
      have hj : j = i := by
        cases hstep with
        | weigh | evicts => rfl
        | noRoomWaits he | noRoomFails he =>
          rcases he with ⟨he,-⟩ | ⟨he,-⟩
          · cases he
          · cases he
            rfl
      subst hj
      obtain ⟨b,hb,rfl⟩ := Option.map_eq_some_iff.mp (Option.mem_toList.mp ha)
      rw [hrun] at hcall
      cases hcall
      exact found_weigh hrun rfl (evictionCandidate_mem hb)
    · cases ha
  · cases ha

theorem chosen_callStep (h : Located s.world) (hw : Coherent s.world)
    (hrun : s.world.calls.get? i = some run) (hp : run.phase = p)
    (hstep : CallStep env s.world i run e p q t)
    (hsid : sid ∈ (⟨t,s.submitted,s.evicted++s.world.evictedBy e⟩ : Watch).chosen) :
    s.Found e sid := by
  rcases List.mem_append.mp hsid with hevicted | hcollected
  · obtain ⟨a,ha,rfl⟩ := List.mem_map.mp hevicted
    rcases List.mem_append.mp ha with hold | hnew
    · exact .inl (List.mem_append_left _ (List.mem_map.mpr ⟨a,hold,rfl⟩))
    · exact found_evicted hrun hp hstep hnew
  · obtain ⟨⟨j,other⟩,hmem,hj⟩ := List.mem_flatMap.mp hcollected
    have hother := Dict.get?_eq_some.mpr hmem
    rw [hstep.calls,Dict.get?_set] at hother
    split_ifs at hother with hji
    · cases hother
      exact found_own h hw hrun hp hstep hj
    · refine .inl (mem_chosen hother ?_)
      cases hlocked : other.phase.locked with
      | false =>
        rw [collected_unlocked t.registry hlocked] at hj
        cases hj
      | true =>
        rw [← collected_congr (hstep.sessions_other hw hrun hp hother hji hlocked)]
        exact hj

theorem Found.idle (h : s.Settled) (hcalm : s.Calm e) (hfound : s.Found e sid) : s.Idle sid := by
  rcases hfound with hold | ⟨row,hrow,rfl,hidle⟩
  · exact h sid hold
  · unfold Calm at hcalm
    split at hcalm
    · cases hrow
    · exact hcalm.2 row hrow hidle

theorem lookedAt_of_handsOut {w : World} (h : w.handsOut e = some sid) : w.lookedAt e = [] := by
  cases e <;> first | rfl | cases h

theorem Found.not_handedOut (hcalm : s.Calm e) (hfound : s.Found e sid) :
    s.world.handsOut e ≠ some sid := by
  intro hout
  rcases hfound with hold | ⟨row,hrow,-⟩
  · unfold Calm at hcalm
    split at hcalm
    · cases hout
    · exact hcalm.1 sid hout hold
  · rw [lookedAt_of_handsOut hout] at hrow
    cases hrow

theorem idle_callStep (h : s.Settled) (hw : Coherent s.world) (hcalm : s.Calm e)
    (hrun : s.world.calls.get? i = some run) (hp : run.phase = p)
    (hstep : CallStep env s.world i run e p q t) {evicted : List (ℕ × ℕ)} (hfound : s.Found e sid) :
    (⟨t,s.submitted,evicted⟩ : Watch).Idle sid := by
  obtain ⟨hpending,hgives⟩ := Found.idle h hcalm hfound
  constructor
  · intro n hn
    rcases hstep.registry hw hrun hp with hsound | ⟨l,account,now,-,-,-,heq⟩ | ⟨l,-,-,-,-,heq⟩
    · exact hpending n (hsound.pendingOf sid ▸ hn)
    · change t.registry.pendingOf sid = some n at hn
      rw [heq] at hn
      simp only [Registry.pendingOf,Dict.get?_set] at hn
      split_ifs at hn
      · cases hn
        rfl
      · exact hpending n hn
    · change t.registry.pendingOf sid = some n at hn
      rw [heq] at hn
      exact hpending n hn
  · rintro ⟨j,other⟩ hmem hother
    have hget := Dict.get?_eq_some.mpr hmem
    rw [hstep.calls,Dict.get?_set] at hget
    split_ifs at hget
    · cases hget
      exact absurd (hstep.gives hrun hp hother) (hfound.not_handedOut hcalm)
    · exact hgives (j,other) (Dict.get?_eq_some.mp hget) hother

theorem settled_callStep (h : s.Settled) (hw : Coherent s.world) (hlocated : Located s.world)
    (hcalm : s.Calm e) (hrun : s.world.calls.get? i = some run)
    (hstep : CallStep env s.world i run e run.phase q t) :
    (⟨t,s.submitted,s.evicted++s.world.evictedBy e⟩ : Watch).Settled :=
  fun _ hsid => idle_callStep h hw hcalm hrun rfl hstep
    (chosen_callStep hlocated hw hrun rfl hstep hsid)

theorem chosen_ambientStep (hw : Coherent s.world) (hstep : AmbientStep env s.world e t)
    (hsid : sid ∈ (⟨t,s.submitted,s.evicted⟩ : Watch).chosen) : sid ∈ s.chosen := by
  rcases List.mem_append.mp hsid with hold | hcollected
  · exact List.mem_append_left _ hold
  · obtain ⟨⟨j,other⟩,hmem,hj⟩ := List.mem_flatMap.mp hcollected
    rw [hstep.calls] at hmem
    have hother := Dict.get?_eq_some.mpr hmem
    refine mem_chosen hother ?_
    cases hphase : other.phase.locked with
    | false =>
      rw [collected_unlocked t.registry hphase] at hj
      cases hj
    | true =>
      rw [← collected_congr (hstep.sessions_other hw hother hphase)]
      exact hj

theorem settled_ambientStep (h : s.Settled) (hw : Coherent s.world) (hcalm : s.Calm e)
    (hstep : AmbientStep env s.world e t) :
    (⟨t,s.submitted,s.evicted++s.world.evictedBy e⟩ : Watch).Settled := by
  have hevicted : s.world.evictedBy e = [] := by cases hstep <;> rfl
  rw [hevicted,List.append_nil]
  intro sid hsid
  have hchosen := chosen_ambientStep hw hstep hsid
  obtain ⟨hpending,hgives⟩ := h sid hchosen
  refine ⟨?_,?_⟩
  · intro n hn
    rcases hstep.registry with hsound | rfl | ⟨j,u,rfl⟩
    · exact hpending n (hsound.pendingOf sid ▸ hn)
    · cases hstep
      exact hpending n hn
    · cases hstep
      unfold Registry.modify Registry.pendingOf at hn
      split at hn
      · simp only [Dict.get?_set] at hn
        split_ifs at hn with hj
        · subst hj
          cases hn
          exact hcalm hchosen
        · exact hpending n hn
      · exact hpending n hn
  · rw [hstep.calls]
    exact hgives

theorem settled_call (h : s.Settled) (i : ℕ) (c : Call) :
    (⟨{s.world with calls := s.world.calls.set i ⟨c,.arriving⟩},s.submitted,s.evicted⟩ :
      Watch).Settled := by
  have hget : ∀ j other, (j,other) ∈ (s.world.calls.set i ⟨c,.arriving⟩).rows →
      other.phase = .arriving ∨ s.world.calls.get? j = some other := by
    intro j other hmem
    have hother := Dict.get?_eq_some.mpr hmem
    rw [Dict.get?_set] at hother
    split_ifs at hother
    · cases hother
      exact .inl rfl
    · exact .inr hother
  intro sid hsid
  have hchosen : sid ∈ s.chosen := by
    rcases List.mem_append.mp hsid with hold | hcollected
    · exact List.mem_append_left _ hold
    · obtain ⟨⟨j,other⟩,hmem,hj⟩ := List.mem_flatMap.mp hcollected
      rcases hget j other hmem with hp | hother
      · rw [hp] at hj
        cases hj
      · exact mem_chosen hother hj
  obtain ⟨hpending,hgives⟩ := h sid hchosen
  refine ⟨hpending,?_⟩
  rintro ⟨j,other⟩ hmem hj
  rcases hget j other hmem with hp | hother
  · rw [hp] at hj
    cases hj
  · exact hgives (j,other) (Dict.get?_eq_some.mp hother) hj

theorem settled_submit (h : s.Settled) (i : ℕ) :
    ({s with submitted := i::s.submitted} : Watch).Settled := by
  intro sid hsid
  obtain ⟨hpending,hgives⟩ := h sid hsid
  exact ⟨hpending,fun q hq hsid => List.mem_cons_of_mem _ (hgives q hq hsid)⟩

end Watch

/-- For a key one creation is running at most. -/
def World.SingleFlight (w : World) : Prop :=
  ∀ p ∈ w.calls.rows,∀ q ∈ w.calls.rows,∀ k ∈ p.2.phase.creation,
    q.2.phase.creation = some k → p.1 = q.1

def Phase.storesUnder (inflight : Dict SessionKey ℕ) : Phase → Option SessionKey
  | .registering l => if inflight.get? l.key = l.inflightFuture then some l.key else none
  | _ => none

/-- A session is stored where no live session is. -/
def World.StoresFresh (w : World) : Prop :=
  ∀ p ∈ w.calls.rows,∀ k ∈ p.2.phase.storesUnder w.inflight,
    ∀ x ∈ w.registry.session? k,x.2.closed = true

structure Watch.Safe (maxSessions : ℕ) (s : Watch) : Prop where
  singleFlight : s.world.SingleFlight
  storesFresh : s.world.StoresFresh
  capacity : s.world.registry.sessions.rows.length+s.world.creations.length ≤ maxSessions
  idle : ∀ sid, s.Closing sid → s.Idle sid

def Careful (maxSessions : ℕ) (s : Watch) : Watched → Prop
  | .event e => Reserving maxSessions s.world e ∧ s.Calm e
  | .submit _ => True

instance (maxSessions : ℕ) (s : Watch) (a : Watched) : Decidable (Careful maxSessions s a) := by
  unfold Careful
  split <;> infer_instance

/-- What holds along a careful run. -/
structure Watch.Inv (maxSessions : ℕ) (s : Watch) : Prop where
  coherent : Coherent s.world
  located : Located s.world
  reserved : Reserved maxSessions s.world
  settled : s.Settled

variable {maxSessions : ℕ} {s : Watch}

theorem Watch.Inv.step {env : Env} {t : Watch} {a : Watched} (h : s.Inv maxSessions)
    (hcareful : Careful maxSessions s a) (ht : Watch.step env s a = some t) :
    t.Inv maxSessions := by
  cases a with
  | event e =>
    obtain ⟨w,hw,rfl⟩ := Option.map_eq_some_iff.mp ht
    refine ⟨step_coherent h.coherent hw,step_located h.located h.coherent hw,
      step_reserved h.reserved h.coherent h.located hcareful.1 hw,?_⟩
    rcases step_moves hw with ⟨i,c,rfl,-,rfl⟩ | ⟨i,run,q,hrun,hstep⟩ | hstep
    · have hcall := Watch.settled_call h.settled i c
      rw [← List.append_nil s.evicted] at hcall
      exact hcall
    · exact Watch.settled_callStep h.settled h.coherent h.located hcareful.2 hrun hstep
    · exact Watch.settled_ambientStep h.settled h.coherent hcareful.2 hstep
  | submit i =>
    simp only [Watch.step] at ht
    split at ht
    · cases ht
      exact ⟨h.coherent,h.located,h.reserved,Watch.settled_submit h.settled i⟩
    · cases ht

theorem Watch.inv_empty (maxSessions : ℕ) : Watch.empty.Inv maxSessions where
  coherent := coherent_empty
  located := located_empty
  reserved := ⟨fun _ _ => Dict.not_mem_empty,Nat.zero_le _,fun _ _ => Dict.not_mem_empty⟩
  settled := nofun

theorem Watch.Inv.storesFresh (h : s.Inv maxSessions) : s.world.StoresFresh := by
  rintro ⟨i,run⟩ hmem k hk x hx
  have hrun := Dict.get?_eq_some.mpr hmem
  cases hp : run.phase with
  | registering l =>
    simp only [hp,Phase.storesUnder,Option.mem_def] at hk
    split_ifs at hk
    cases hk
    have hfree := (h.reserved.creation_held hrun (k := l.key) (by rw [hp]; rfl)).2
    rw [get?_of_session? hx] at hfree
    cases hfree
  | _ =>
    simp only [hp,Phase.storesUnder,Option.mem_def] at hk
    cases hk

/-- In every run whose steps reserve and are calm, every state is safe. -/
theorem single_flight_and_capacity (env : Env) (maxSessions : ℕ) (as : List Watched) (s : Watch)
    (h : Run (restrict (Steps (Watch.step env)) (Careful maxSessions)) Watch.empty as s) :
    s.Safe maxSessions := by
  have hinv : s.Inv maxSessions :=
    h.invariant (fun _ _ _ hs hstep => hs.step hstep.1 hstep.2) (Watch.inv_empty maxSessions)
  refine ⟨?_,hinv.storesFresh,hinv.reserved.capacity,fun _ hsid => hinv.settled.closing hsid⟩
  rintro ⟨i,run⟩ hi ⟨j,other⟩ hj k hk hother
  exact hinv.reserved.creation_unique (Dict.get?_eq_some.mpr hi) (Dict.get?_eq_some.mpr hj) hk hother

instance (w : World) : Decidable w.SingleFlight := by
  unfold World.SingleFlight
  infer_instance

instance (w : World) : Decidable w.StoresFresh := by
  unfold World.StoresFresh
  infer_instance

def soleCall (session : String) : Call := {headerCall session with maxSessions := 1}

def strayCall : Call := {headerCall "s" with
  key := .make "turn_state_header" "http_turn_1" none
  keyScope := rfl
  incomingTurnState := some "http_turn_1"
  maxSessions := 1}

def createEvents (i : ℕ) : List Event := [.created i ⟨"acc",true⟩ 0,.claimed i]

def soleEvents : List Event :=
  passEvents 0 (soleCall "s") ownedHere++[.evict 0,.proceed 0]++createEvents 0++[.registered 0]

/-- Call 1 takes it out of the map to make room, and is about to close it. -/
def evictEvents : List Event :=
  [.call 1 (soleCall "t"),.register 1 true,.acquire 1 0,.scan 1,.select 1 0,.owner 1 ownedHere,
    .evict 1,.weigh 1,.evict 1]

def replaceEvents : List Event :=
  [.close 1,.close 1,.close 1,.proceed 1]++createEvents 1++[.registered 1]

theorem submitted_session_evicted :
    ∃ s, Run (restrict (Steps (Watch.step ringEnv)) (Careful 1)) Watch.empty
        (soleEvents.map .event++[.submit 0]++(evictEvents++replaceEvents).map .event) s ∧
      s.evicted = [(1,0)] ∧ s.Safe 1 :=
  exists_run_with (fun s hrun hevicted =>
    ⟨hevicted,single_flight_and_capacity ringEnv 1 _ s hrun⟩) (by decide +kernel)

/-- Three calls with the generated turn state come to create sessions. Call 0
stores its session; call 1 is about to store its own under the same key. -/
def strayEvents : List Event :=
  [0,1,2].flatMap (fun i => passEvents i strayCall ownedHere++[.proceed i])++
    createEvents 0++[.registered 0]++createEvents 1

/-- Where one session may be stored: two creations for a key and a live session
are there at once, and a session is evicted before its caller has submitted. -/
theorem stray_calls_and_early_eviction :
    (∃ s, Run (Steps (Watch.step ringEnv)) Watch.empty (strayEvents.map .event) s ∧
      ¬s.world.SingleFlight ∧ ¬s.world.StoresFresh ∧
      s.world.registry.sessions.rows.length+s.world.creations.length = 3) ∧
    ∃ s, Run (Steps (Watch.step ringEnv)) Watch.empty ((soleEvents++evictEvents).map .event) s ∧
      s.Closing 0 ∧ ¬s.Idle 0 :=
  ⟨exists_steps_of_exec (by decide +kernel),exists_steps_of_exec (by decide +kernel)⟩

end CodexLb.Bridge
