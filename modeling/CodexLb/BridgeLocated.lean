import CodexLb.BridgeMoves

/-!
# What a call inside the locked block knows about the map

The map of sessions changes only in the hands of the call that has the lock. So
the rows a scan looks at stay in the map, the sessions a scan has found idle stay
under their keys until they are taken out, and the session a call is going to
discard stays under its key until it is.
-/
namespace CodexLb.Bridge
open Runs Registry

/-- What a phase inside the block knows about the map. -/
def Phase.Located (sessions : Dict SessionKey ℕ) : Phase → Prop
  | .scanning l _ rows _ => l.existing = none ∧ rows ⊆ sessions.rows
  | .pruning l _ _ => l.existing = none
  | .owner l => sessions.get? l.key = l.existing
  | .weighing _ rows idle => rows ⊆ sessions.rows ∧ idle ⊆ sessions.rows
  | _ => True

def Located (w : World) : Prop :=
  ∀ i run, w.calls.get? i = some run → run.phase.Located w.registry.sessions

theorem located_unlocked {p : Phase} (h : p.locked = false) {sessions : Dict SessionKey ℕ} :
    p.Located sessions := by
  cases p <;> trivial

section Stages
variable {env : Env} {c : Call} {l : Locals} {r q : Registry} {sessions : Dict SessionKey ℕ}

/-- The keys a scan collects on its way are those of closed sessions. -/
theorem scanAhead_spec (r : Registry) (rows : List (SessionKey × ℕ)) (stale : List SessionKey) :
    (r.scanAhead rows stale).1 ⊆ rows ∧
      ∀ key ∈ (r.scanAhead rows stale).2,key ∈ stale ∨
        ∃ sid s, (key,sid) ∈ rows ∧ r.heap.get? sid = some s ∧ s.closed = true := by
  induction rows generalizing stale with
  | nil => exact ⟨fun _ h => h,fun key h => .inl h⟩
  | cons row rows ih =>
    obtain ⟨key,sid⟩ := row
    rw [Registry.scanAhead]
    split
    · obtain ⟨hsub,hkeys⟩ := ih stale
      refine ⟨fun _ h => List.mem_cons_of_mem _ (hsub h),?_⟩
      intro k hk
      rcases hkeys k hk with hold | ⟨j,s,hmem,hs⟩
      · exact .inl hold
      · exact .inr ⟨j,s,List.mem_cons_of_mem _ hmem,hs⟩
    · rename_i s hs
      split_ifs with hclosed
      · obtain ⟨hsub,hkeys⟩ := ih (stale++[key])
        refine ⟨fun _ h => List.mem_cons_of_mem _ (hsub h),?_⟩
        intro k hk
        rcases hkeys k hk with hold | ⟨j,s,hmem,hs⟩
        · rcases List.mem_append.mp hold with hold | hnew
          · exact .inl hold
          · rw [List.mem_singleton.mp hnew]
            exact .inr ⟨sid,s,List.mem_cons_self,hs,hclosed⟩
        · exact .inr ⟨j,s,List.mem_cons_of_mem _ hmem,hs⟩
      · exact ⟨fun _ h => h,fun k hk => .inl hk⟩

variable {now : ℤ} {rows : List (SessionKey × ℕ)}

theorem scanFrom_located {stale : List SessionKey} (hexisting : l.existing = none)
    (hrows : rows ⊆ sessions.rows) : (scanFrom r l now rows stale).Located sessions := by
  obtain ⟨hsub,-⟩ := scanAhead_spec r rows stale
  unfold scanFrom
  split
  · exact hexisting
  · rename_i hscan
    rw [hscan] at hsub
    exact ⟨hexisting,fun _ hrow => hrows (hsub hrow)⟩

variable {idle : List (SessionKey × ℕ)} {row p : SessionKey × ℕ}

theorem mem_weigh (h : p ∈ r.weigh row idle) : p ∈ idle ∨
      p = row ∧ ∃ s, r.heap.get? row.2 = some s ∧ s.pendingCount = 0 := by
  unfold Registry.weigh at h
  split_ifs at h with hidle
  · rcases List.mem_append.mp h with hold | hnew
    · exact .inl hold
    · cases hs : r.heap.get? row.2 with
      | none => simp [hs] at hidle
      | some s => exact .inr ⟨List.mem_singleton.mp hnew,s,rfl,by simpa [hs] using hidle⟩
  · exact .inl h

theorem weigh_subset {stored : List (SessionKey × ℕ)} (hrows : row::rows ⊆ stored)
    (hidle : idle ⊆ stored) : r.weigh row idle ⊆ stored := by
  intro a ha
  rcases mem_weigh ha with hold | ⟨rfl,-⟩
  · exact hidle hold
  · exact hrows List.mem_cons_self

theorem better_cases (best : Option (SessionKey × ℕ)) :
    r.better best row = best ∨ r.better best row = some row := by
  unfold Registry.better
  split
  · exact .inr rfl
  · split
    · split_ifs
      · exact .inl rfl
      · exact .inr rfl
    · exact .inl rfl

/-- The session evicted is one of those found idle. -/
theorem evictionCandidate_mem (h : r.evictionCandidate idle = some p) : p ∈ idle := by
  have hfold : ∀ (rows : List (SessionKey × ℕ)) (best : Option (SessionKey × ℕ)),
      rows.foldl r.better best = some p → best = some p ∨ p ∈ rows := by
    intro rows
    induction rows with
    | nil => exact fun best h => .inl h
    | cons row rows ih =>
      intro best h
      rcases ih _ h with hbest | hmem
      · rcases better_cases best with heq | heq
        · exact .inl (heq ▸ hbest)
        · rw [heq] at hbest
          cases hbest
          exact .inr List.mem_cons_self
      · exact .inr (List.mem_cons_of_mem _ hmem)
  exact (hfold idle none h).resolve_left nofun

variable {key : SessionKey}

theorem session?_none (hr : r.Consistent) (h : r.session? key = none) :
    r.sessions.get? key = none := by
  cases hk : r.sessions.get? key with
  | none => rfl
  | some sid =>
    obtain ⟨s,hs,-⟩ := Option.map_eq_some_iff.mp (hr.keyed key sid hk)
    rw [Registry.session?,hk,Option.bind_some,hs] at h
    cases h

theorem get?_of_session? {sid : ℕ} {s : Session} (h : r.session? key = some (sid,s)) :
    r.sessions.get? key = some sid := by
  obtain ⟨j,hj,hmap⟩ := Option.bind_eq_some_iff.mp h
  obtain ⟨_,-,he⟩ := Option.map_eq_some_iff.mp hmap
  cases he
  exact hj

theorem get?_pop_self (r : Registry) (key : SessionKey) : (r.pop key).sessions.get? key = none := by
  rw [Registry.pop,Dict.get?_pop,if_pos rfl]

theorem sessions_unregisterTurnStates (r : Registry) (sid : ℕ) :
    (r.unregisterTurnStates sid).sessions = r.sessions := by
  unfold unregisterTurnStates
  split <;> rfl

theorem sessions_retired (r : Registry) (key : SessionKey) (sid : ℕ) :
    ((r.pop key).unregisterTurnStates sid).sessions = (r.pop key).sessions ∧
      (((r.pop key).unregisterTurnStates sid).markClosed sid).sessions = (r.pop key).sessions := by
  refine ⟨sessions_unregisterTurnStates _ _,?_⟩
  rw [markClosed,sessions_modify]
  exact sessions_unregisterTurnStates _ _

theorem selectExisting_located (hr : r.Consistent) (hexisting : l.existing = none) :
    (selectExisting env c now l r).2.Located (selectExisting env c now l r).1.sessions := by
  have hpop : (r.pop l.key).sessions.get? l.key = l.existing :=
    (get?_pop_self r l.key).trans hexisting.symm
  unfold selectExisting
  split
  · rename_i hnone
    exact (session?_none hr hnone).trans hexisting.symm
  · rename_i sid s hs
    obtain ⟨hretired,hclosed⟩ := sessions_retired r l.key sid
    split_ifs
    · trivial
    · exact (congrArg (·.get? l.key) hclosed).trans hpop
    · exact (congrArg (·.get? l.key) hretired).trans hpop
    · exact (congrArg (·.get? l.key) hclosed).trans hpop
    · exact get?_of_session? hs

theorem continuityOrCapacity_located : (continuityOrCapacity c l r).Located sessions := by
  rcases continuityOrCapacity_cases c l r with h | ⟨error,h⟩ <;> rw [h] <;> trivial

theorem lookupPrevious_located {now : ℤ} {slots : Dict SessionKey ℕ} :
    (lookupPrevious env c now l slots r).2.Located sessions := by
  obtain ⟨l',-,⟨sid,h⟩ | h | h⟩ := lookupPrevious_cases env c now l slots r <;> rw [h] <;> trivial

theorem dispatch_located : (dispatch r l).Located sessions := by
  obtain ⟨_,_,-,h⟩ | ⟨-,⟨_,h⟩ | ⟨_,h⟩ | ⟨_,h⟩ | ⟨_,h⟩ | h⟩ := dispatch_cases r l <;> rw [h] <;> trivial

theorem resolveAlias_existing (h : resolveAlias env c key r = .proceed q l) :
    l.existing = none := by
  have halias := resolveAlias_aliasStep env c key r
  rw [h] at halias
  generalize hout : AliasResult.proceed q l = out at halias
  cases halias with
  | keeps | follows | forgets | without =>
    cases hout
    rfl
  | previous => cases hout

end Stages

namespace Located
variable {env : Env} {w t : World} {i : ℕ} {run : Running} {e : Event} {p q : Phase}

theorem closeStep_located {sid : ℕ} {stage : CloseStage} {sessions : Dict SessionKey ℕ}
    (hclose : closeStep i p = some (sid,stage,q)) (hp : p.Located sessions) :
    q.Located sessions := by
  unfold closeStep at hclose
  split at hclose
  · cases hclose
    exact hp
  · cases hclose
    split <;> trivial
  · cases hclose
    split <;> trivial
  · cases hclose
    split <;> trivial
  · cases hclose

theorem own (h : Located w) (hw : Coherent w) (hrun : w.calls.get? i = some run)
    (hp : run.phase = p) (hstep : CallStep env w i run e p q t) :
    q.Located t.registry.sessions := by
  have hold := h i run hrun
  rw [hp] at hold
  cases hstep with
  | acquired hfree halias => exact scanFrom_located (resolveAlias_existing halias) fun _ hrow => hrow
  | scan => exact scanFrom_located hold.1 fun _ hrow => hold.2 (List.mem_cons_of_mem _ hrow)
  | prune => exact hold
  | select => exact selectExisting_located hw.registry hold
  | owner => exact lookupPrevious_located
  | refreshed => exact continuityOrCapacity_located
  | weighs hfull hrows => exact ⟨fun _ hrow => hrows ▸ hrow,List.nil_subset _⟩
  | weigh =>
    exact ⟨fun _ hrow => hold.1 (List.mem_cons_of_mem _ hrow),weigh_subset hold.1 hold.2⟩
  | close hclose =>
    simp only [World.update,sessions_closeStage]
    exact closeStep_located hclose hold
  | proceed => exact dispatch_located
  | cancel hcancel => exact located_unlocked (Coherent.cancelTo_frame hcancel).2.1
  | _ => trivial

theorem callStep (h : Located w) (hw : Coherent w) (hrun : w.calls.get? i = some run)
    (hstep : CallStep env w i run e run.phase q t) : Located t := by
  intro j other hother
  rw [hstep.calls,Dict.get?_set] at hother
  split_ifs at hother with hj
  · cases hother
    exact h.own hw hrun rfl hstep
  · cases hlocked : other.phase.locked with
    | false => exact located_unlocked hlocked
    | true =>
      rw [hstep.sessions_other hw hrun rfl hother hj hlocked]
      exact h j other hother

theorem ambientStep (h : Located w) (hw : Coherent w) (hstep : AmbientStep env w e t) :
    Located t := by
  intro j other hother
  rw [hstep.calls] at hother
  cases hlocked : other.phase.locked with
  | false => exact located_unlocked hlocked
  | true =>
    rw [hstep.sessions_other hw hother hlocked]
    exact h j other hother

end Located

theorem step_located {env : Env} {w t : World} {e : Event} (h : Located w) (hw : Coherent w)
    (ht : step env w e = some t) : Located t := by
  rcases step_moves ht with ⟨i,c,-,-,rfl⟩ | ⟨i,run,q,hrun,hstep⟩ | hstep
  · intro j other hother
    simp only [Dict.get?_set] at hother
    split_ifs at hother
    · cases hother
      trivial
    · exact h j other hother
  · exact h.callStep hw hrun hstep
  · exact h.ambientStep hw hstep

theorem located_empty : Located World.empty := fun _ _ hq => Dict.not_mem_empty hq

end CodexLb.Bridge
