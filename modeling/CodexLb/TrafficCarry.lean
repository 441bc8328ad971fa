import CodexLb.TrafficAnchors
import CodexLb.TrafficStatic
import CodexLb.TrafficWire

/-!
# From the preparation of a request to its message

A property of a prepared request and an account, such as that the account owns
the response the request continues, that holds for the session's account when
the request is attached still holds for the account of the socket when its
message is written, provided it holds for the new account at every reconnect in
between. Messages without a previous response are left out: warm-up requests,
the retries of the reader and the retries of a failed send never have one.

A `Rule` states it together with what it needs of the requests and of the anchor
of the session.
-/
namespace CodexLb.Traffic

section
variable {F : Type}

def SubmitPhase.resent : SubmitPhase → Option Message
  | .retrying m | .resending _ m _ => some m
  | _ => none

/-- The socket a message of the client's request is about to be written on. -/
def SubmitPhase.unwritten : SubmitPhase → Option ℕ
  | .sending (.sending u false) => some u
  | _ => none

structure Rule (env : Env F) where
  sendable : List Completion → Request F → String → Prop
  anchored : List Completion → Anchor F → String → Prop
  prepared : Request F → Prop
  sendable_mono : ∀ {c c' : List Completion} {r : Request F} {a : String}, c ⊆ c' →
    sendable c r a → sendable c' r a
  prepared_warmup : ∀ m, prepared (Session.warmupRequest env m).static
  prepared_unanchored : ∀ {r : Request F} (m : Message), prepared r → prepared {r with
    previousResponseId := none
    proxyInjectedPreviousResponseId := false
    requestText := m}

/-- Every request that is not queued yet may go to the account. -/
def Session.AllWaiting (P : List Completion → Request F → String → Prop) (s : Session F)
    (account : String) : Prop :=
  ∀ i p r, s.submits.get? i = some p → .client i ∈ p.unqueued i → s.static (.client i) = some r →
    P s.completions r account

theorem Session.allWaiting_iff {P : List Completion → Request F → String → Prop} {s : Session F}
    {a : String} :
    (∀ q ∈ s.submits.rows, .client q.1 ∈ q.2.unqueued q.1 → ∀ r ∈ s.static (.client q.1),
      P s.completions r a) ↔ s.AllWaiting P a := by
  constructor
  · intro h i p r hp hmem hr
    exact h (i,p) (Dict.get?_eq_some.mp hp) hmem r hr
  · intro h q hq hmem r hr
    exact h q.1 q.2 r (Dict.get?_eq_some.mpr hq) hmem hr

instance {P : List Completion → Request F → String → Prop} [∀ c r a, Decidable (P c r a)]
    (s : Session F) (a : String) : Decidable (s.AllWaiting P a) :=
  decidable_of_iff _ Session.allWaiting_iff

section
variable {env : Env F}

structure Sendable (rule : Rule env) (s : Session F) : Prop where
  upstream : (s.traffic[s.traffic.length-1]?).map Prod.fst = some s.accountId
  entered : ∀ i p, s.submits.get? i = some p → s.static (.client i) ≠ none
  prepared : ∀ q r, s.static q = some r → r.Consistent ∧ rule.prepared r
  warmup : ∀ i r, s.static (.warmup i) = some r → r.requestText.previousResponseId = none
  anchored : rule.anchored s.completions s.anchor s.accountId
  waiting : s.AllWaiting rule.sendable s.accountId
  sending : ∀ i p u r, s.submits.get? i = some p → p.unwritten = some u →
    s.static (.client i) = some r → ∃ k, s.traffic[u]? = some k ∧ rule.sendable s.completions r k.1
  resent : ∀ i p m, s.submits.get? i = some p → p.resent = some m → m.previousResponseId = none
  sent : ∀ k ∈ s.traffic, ∀ m ∈ k.2, m.message.previousResponseId ≠ none →
    ∃ r, rule.sendable s.completions r k.1 ∧ m.message = r.requestText ∧
      m.preferredAccountId = r.preferredAccountId ∧ m.removed = r.removed

/-- The reader has no message with an anchor to send either. -/
structure Carried (rule : Rule env) (s : Session F) : Prop extends Sendable rule s where
  retried : ∀ q, s.reader.target = some q → ∃ r, s.static q = some r ∧
    r.requestText.previousResponseId = none

variable {rule : Rule env} {s t : Session F} {i : ℕ} {p p' : SubmitPhase}

theorem Session.traffic_modify (s : Session F) (u : ℕ) (m : Send) :
    ({s with sockets := s.sockets.modify u fun k => {k with sent := k.sent++[m]}} : Session F).traffic =
      s.traffic.modify u fun k => (k.1,k.2++[m]) := by
  apply List.ext_getElem?
  intro v
  simp only [Session.traffic,List.getElem?_map,List.getElem?_modify]
  cases s.sockets[v]? with
  | none => rfl
  | some k => by_cases hv : u = v <;> simp [hv,Socket.traffic]

theorem fst_getElem?_modify (l : List (String × List Send)) (u v : ℕ) (m : Send) :
    ((l.modify u fun k => (k.1,k.2++[m]))[v]?).map Prod.fst = (l[v]?).map Prod.fst := by
  rw [List.getElem?_modify]
  cases l[v]? with
  | none => rfl
  | some k => by_cases hv : u = v <;> simp [hv]

theorem exists_of_mem_modify {l : List (String × List Send)} {u : ℕ} {m : Send}
    {k : String × List Send} (h : k ∈ l.modify u fun k => (k.1,k.2++[m])) :
    ∃ v k', l[v]? = some k' ∧ k.1 = k'.1 ∧ (k.2 = k'.2 ∨ v = u ∧ k.2 = k'.2++[m]) := by
  obtain ⟨v,hv⟩ := List.mem_iff_getElem?.mp h
  rw [List.getElem?_modify] at hv
  obtain ⟨k',hk',rfl⟩ := Option.map_eq_some_iff.mp hv
  refine ⟨v,k',hk',?_⟩
  by_cases hu : u = v
  · exact ⟨by simp [hu],.inr ⟨hu.symm,by simp [hu]⟩⟩
  · exact ⟨by simp [hu],.inl (by simp [hu])⟩

namespace Sendable

theorem keeps (h : Sendable rule s) (hk : s.Keeps t) : Sendable rule t := by
  have htraffic : t.traffic = s.traffic := hk.traffic
  constructor
  · rw [htraffic,hk.accountId]
    exact h.upstream
  · rw [hk.submits,hk.static]
    exact h.entered
  · rw [hk.static]
    exact h.prepared
  · rw [hk.static]
    exact h.warmup
  · rw [hk.completions,hk.anchor,hk.accountId]
    exact h.anchored
  · unfold Session.AllWaiting
    rw [hk.submits,hk.static,hk.completions,hk.accountId]
    exact h.waiting
  · rw [hk.submits,hk.static,hk.completions,htraffic]
    exact h.sending
  · rw [hk.submits]
    exact h.resent
  · rw [htraffic,hk.completions]
    exact h.sent

variable {ev : UpstreamEvent} {o : Option Origin} {q : Option RequestId}

theorem complete (h : Sendable rule s)
    (ha : ev.type = .completed → ∀ r ∈ q.bind s.static, rule.anchored
      (s.completions++s.completion ev o) (s.completedAnchor ev r) s.accountId) :
    Sendable rule (s.complete ev o q) := by
  unfold Session.complete
  split
  · exact h
  · rename_i r hr
    split_ifs with hev
    · have hsub : s.completions ⊆ s.completions++s.completion ev o :=
        List.subset_append_left ..
      refine {h with anchored := ?_,waiting := ?_,sending := ?_,sent := ?_}
      · obtain ⟨q,hq,hget⟩ := Option.bind_eq_some_iff.mp hr
        exact ha hev r.static (by rw [hq,Option.bind_some,Session.static,hget]; rfl)
      · exact fun i p r hp hmem hr => rule.sendable_mono hsub (h.waiting i p r hp hmem hr)
      · intro i p u r hp hu hr
        obtain ⟨k,hk,hP⟩ := h.sending i p u r hp hu hr
        exact ⟨k,hk,rule.sendable_mono hsub hP⟩
      · intro k hk m hm hprev
        obtain ⟨r,hP,hrest⟩ := h.sent k hk m hm hprev
        exact ⟨r,rule.sendable_mono hsub hP,hrest⟩
    · exact h

theorem concludes (h : Sendable rule s)
    (ha : ev.type = .completed → ∀ r ∈ q.bind s.static, rule.anchored
      (s.completions++s.completion ev o) (s.completedAnchor ev r) s.accountId)
    (hc : s.Concludes t ev o q) : Sendable rule t := by
  obtain ⟨s',hk,ht | ht⟩ := hc.exists_state
  · exact (h.keeps hk).keeps ht
  · refine ((h.keeps hk).complete ?_).keeps ht
    rw [hk.static,hk.completions,hk.completion,hk.completedAnchor,hk.accountId]
    exact ha

end Sendable

namespace Carried

section
variable (h : Carried rule s)
include h

theorem keeps (hk : s.Keeps t) (hreader : ∀ q, t.reader.target = some q → ∃ r, s.static q = some r ∧
      r.requestText.previousResponseId = none) : Carried rule t := by
  refine ⟨h.toSendable.keeps hk,?_⟩
  rw [hk.static]
  exact hreader

theorem keeps_quiet (hk : s.Keeps t) (hr : t.reader.target = none) :
    Carried rule t := h.keeps hk fun q hq => by rw [hr] at hq; cases hq

theorem passes (hk : s.Passes t) :
    Carried rule t := h.keeps hk.toKeeps fun q hq => h.retried q (hk.reader ▸ hq)

theorem phase (henter : s.static (.client i) ≠ none)
    (hwait : .client i ∈ p.unqueued i → ∀ r, s.static (.client i) = some r → rule.sendable
      s.completions r s.accountId)
    (hsend : ∀ u, p.unwritten = some u → ∀ r, s.static (.client i) = some r → ∃ k, s.traffic[u]?
      = some k ∧ rule.sendable s.completions r k.1)
    (hres : ∀ m, p.resent = some m → m.previousResponseId = none) :
    Carried rule (s.phase i p) := by
  have hget : ∀ j p', (s.phase i p).submits.get? j = some p' →
      (j = i ∧ p' = p) ∨ (j ≠ i ∧ s.submits.get? j = some p') := by
    intro j p' hp
    rw [Session.phase,Dict.get?_set] at hp
    split_ifs at hp with hj
    · cases hp
      exact .inl ⟨hj,rfl⟩
    · exact .inr ⟨hj,hp⟩
  refine {h with entered := ?_,waiting := ?_,sending := ?_,resent := ?_}
  · intro j p' hp
    rcases hget j p' hp with ⟨rfl,rfl⟩ | ⟨-,hp⟩
    · exact henter
    · exact h.entered j p' hp
  · intro j p' r hp
    rcases hget j p' hp with ⟨rfl,rfl⟩ | ⟨-,hp⟩
    · exact fun hmem => hwait hmem r
    · exact h.waiting j p' r hp
  · intro j p' u r hp
    rcases hget j p' hp with ⟨rfl,rfl⟩ | ⟨-,hp⟩
    · exact fun hu => hsend u hu r
    · exact h.sending j p' u r hp
  · intro j p' m hp
    rcases hget j p' hp with ⟨rfl,rfl⟩ | ⟨-,hp⟩
    · exact hres m
    · exact h.resent j p' m hp

theorem rest (henter : s.static (.client i) ≠ none)
    (hwait : .client i ∈ p.unqueued i → ∀ r, s.static (.client i) = some r → rule.sendable
      s.completions r s.accountId) (hun : p.unwritten = none) (hres : p.resent = none) :
    Carried rule (s.phase i p) := by
  refine h.phase henter hwait ?_ ?_
  · rw [hun]
    exact nofun
  · rw [hres]
    intro m hm
    cases hm

theorem raise (henter : s.static (.client i) ≠ none) (e : Bridge.Raised) :
    Carried rule (s.phase i (.raised e)) :=
  h.rest henter (nofun) rfl rfl

theorem advance (hp : s.submits.get? i = some p)
    (hsub : .client i ∈ p'.unqueued i → .client i ∈ p.unqueued i) (hun : p'.unwritten = none)
    (hres : ∀ m, p'.resent = some m → p.resent = some m) : Carried rule (s.phase i p') :=
  h.phase (h.entered i p hp) (fun hmem r => h.waiting i p r hp (hsub hmem))
    (fun u hu => by rw [hun] at hu; cases hu) fun m hm => h.resent i p m hp (hres m hm)

theorem leave (hp : s.submits.get? i = some p) (hnil : p'.unqueued i = [])
    (hun : p'.unwritten = none) (hres : p'.resent = none) : Carried rule (s.phase i p') := by
  refine h.rest (h.entered i p hp) ?_ hun hres
  rw [hnil]
  intro hmem
  cases hmem

end

variable {q : RequestId} {r : Request F}

theorem setRequest (h : Carried rule s) (hr : r.static.Consistent ∧ rule.prepared r.static)
    (hwarm : ∀ i, q = .warmup i → r.requestText.previousResponseId = none)
    (hwait : ∀ i p, q = .client i → s.submits.get? i = some p → .client i ∈ p.unqueued i →
      rule.sendable s.completions r.static s.accountId)
    (hsend : ∀ i p u, q = .client i → s.submits.get? i = some p → p.unwritten = some u → ∃ k,
      s.traffic[u]? = some k ∧ rule.sendable s.completions r.static k.1)
    (hretry : s.reader.target = some q → r.requestText.previousResponseId = none) :
    Carried rule {s with requests := s.requests.set q r} := by
  have hget : ∀ j, ({s with requests := s.requests.set q r} : Session F).static j =
      if j = q then some r.static else s.static j := by
    intro j
    simp only [Session.static,Dict.get?_set]
    split_ifs <;> rfl
  refine
    {h with
      entered := ?_
      prepared := ?_
      warmup := ?_
      waiting := ?_
      sending := ?_
      retried := ?_}
  · intro i p hp
    rw [hget]
    split_ifs
    · simp
    · exact h.entered i p hp
  · intro j r' hj
    rw [hget] at hj
    split_ifs at hj
    · cases hj
      exact hr
    · exact h.prepared j r' hj
  · intro i r' hi
    rw [hget] at hi
    split_ifs at hi with hq
    · cases hi
      exact hwarm i hq.symm
    · exact h.warmup i r' hi
  · intro i p r' hp hmem hi
    rw [hget] at hi
    split_ifs at hi with hq
    · cases hi
      exact hwait i p hq.symm hp hmem
    · exact h.waiting i p r' hp hmem hi
  · intro i p u r' hp hu hi
    rw [hget] at hi
    split_ifs at hi with hq
    · cases hi
      exact hsend i p u hq.symm hp hu
    · exact h.sending i p u r' hp hu hi
  · intro j hj
    rw [hget]
    split_ifs with hq
    · exact ⟨_,rfl,hretry (hq ▸ hj)⟩
    · exact h.retried j hj

theorem create (h : Carried rule s) (hnew : s.requests.get? q = none) (hc : r.static.Consistent)
    (hr : rule.prepared r.static)
    (hwarm : ∀ i, q = .warmup i → r.requestText.previousResponseId = none) :
    Carried rule {s with requests := s.requests.set q r} := by
  have hnone : s.static q = none := by rw [Session.static,hnew,Option.map_none]
  refine h.setRequest ⟨hc,hr⟩ hwarm ?_ ?_ ?_
  · rintro i p rfl hp
    exact absurd hnone (h.entered i p hp)
  · rintro i p u rfl hp
    exact absurd hnone (h.entered i p hp)
  · intro hq
    obtain ⟨r',hr',-⟩ := h.retried q hq
    rw [hnone] at hr'
    cases hr'

theorem reconnected (h : Carried rule s) {b : String} (hb : s.AllWaiting rule.sendable b)
    (ha : rule.anchored s.completions s.anchor b) : Carried rule (s.reconnected b) := by
  have htraffic : (s.reconnected b).traffic = s.traffic++[(b,[])] := by
    simp only [Session.traffic,Session.reconnected,List.map_append,List.map_cons,List.map_nil,
      Socket.traffic]
  refine {h with upstream := ?_,anchored := ha,waiting := hb,sending := ?_,sent := ?_}
  · rw [htraffic]
    simp [Session.reconnected]
  · intro i p u r hp hu hr
    obtain ⟨k,hk,hP⟩ := h.sending i p u r hp hu hr
    refine ⟨k,?_,hP⟩
    rw [htraffic,List.getElem?_append_left (List.getElem?_eq_some_iff.mp hk).1]
    exact hk
  · intro k hk
    rw [htraffic] at hk
    rcases List.mem_append.mp hk with hk | hk
    · exact h.sent k hk
    · rw [List.mem_singleton.mp hk]
      intro m hm
      cases hm

variable {m : Message}

theorem write (h : Carried rule s) {u : ℕ}
    (hm : m.previousResponseId ≠ none → ∀ r, s.static q = some r → ∀ k, s.traffic[u]? = some k →
      rule.sendable s.completions r k.1 ∧ m = r.requestText) : Carried rule (s.write u q m) := by
  unfold Session.write
  cases hq : s.requests.get? q with
  | none => exact h
  | some r =>
    have hstatic : s.static q = some r.static := by rw [Session.static,hq,Option.map_some]
    have htraffic := s.traffic_modify u ⟨q,m,r.preferredAccountId,r.removed⟩
    refine {h with upstream := ?_,sending := ?_,sent := ?_}
    · rw [htraffic,List.length_modify,fst_getElem?_modify]
      exact h.upstream
    · intro i p v r' hp hv hr
      obtain ⟨k,hk,hP⟩ := h.sending i p v r' hp hv hr
      have hfst := fst_getElem?_modify s.traffic u v ⟨q,m,r.preferredAccountId,r.removed⟩
      rw [hk,Option.map_some] at hfst
      obtain ⟨k',hk',hsame⟩ := Option.map_eq_some_iff.mp hfst
      exact ⟨k',htraffic ▸ hk',hsame ▸ hP⟩
    · intro k hk a ha hprev
      rw [htraffic] at hk
      obtain ⟨v,k',hk',hfst,hsnd⟩ := exists_of_mem_modify hk
      rw [hfst]
      rcases hsnd with hsnd | ⟨rfl,hsnd⟩
      · exact h.sent k' (List.mem_of_getElem? hk') a (hsnd ▸ ha) hprev
      · rw [hsnd] at ha
        rcases List.mem_append.mp ha with ha | ha
        · exact h.sent k' (List.mem_of_getElem? hk') a ha hprev
        · rw [List.mem_singleton.mp ha] at hprev ⊢
          obtain ⟨hP,htext⟩ := hm hprev r.static hstatic k' hk'
          exact ⟨r.static,hP,htext,rfl,rfl⟩

theorem dropAnchor (h : Carried rule s) (hp : s.submits.get? i = some p) (hm : p.resent = some m)
    (hnil : p.unqueued i = []) (hun : p.unwritten = none) :
    Carried rule (s.dropAnchor (.client i) m) := by
  have hprev := h.resent i p m hp hm
  unfold Session.dropAnchor Session.modify
  cases hget : s.requests.get? (.client i) with
  | none => exact h
  | some r =>
    dsimp only
    split_ifs with htext
    · exact h.passes ⟨⟨funext (Session.static_set hget rfl),rfl,rfl,rfl,rfl,rfl⟩,rfl⟩
    · have hold := (h.prepared (.client i) r.static (by rw [Session.static,hget]; rfl)).2
      refine h.setRequest ⟨⟨hprev,by rintro ⟨⟩⟩,rule.prepared_unanchored m hold⟩
        (fun _ _ => hprev) ?_ ?_ fun _ => hprev
      · rintro _ p' ⟨rfl⟩ hp' hmem
        rw [hp] at hp'
        cases hp'
        rw [hnil] at hmem
        cases hmem
      · rintro _ p' u ⟨rfl⟩ hp' hu
        rw [hp] at hp'
        cases hp'
        rw [hun] at hu
        cases hu

end Carried

end

end

end CodexLb.Traffic
