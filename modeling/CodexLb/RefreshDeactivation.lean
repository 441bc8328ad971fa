import CodexLb.RefreshRaces

/-!
# When a rejected refresh does not deactivate the account

A call that the endpoint rejects re-reads the row and compares its refresh
token with the one in its own account object. The invariant follows a token
from its redemption to the commit that replaces it: a redeemed token is in the
row only while the call that redeemed it has not committed. It also shows that
a call in flight still has, in its object, the token it sent, because a second
refresh of that object in the same process would have joined the first.
-/
namespace CodexLb.TokenRefresh
open Runs Phase

/-- The endpoint accepts a token once and rejects it permanently afterwards. -/
def singleUse (w : World) : Event → Bool
  | .grant i .. => w.tasks[i]?.all fun t =>
    match t.phase with
    | .sent n => (w.redeemedBy.get? n).isNone
    | _ => true
  | .reject i _ => w.tasks[i]?.all fun t =>
    match t.phase with
    | .sent n => (w.redeemedBy.get? n).isSome
    | _ => true
  | _ => true

/-- A rejected call re-reads the database and not its session, after the call
that redeemed its token has committed. -/
def winnerCommitted (w : World) : Event → Bool
  | .reread i => w.tasks[i]?.all fun t =>
    !t.attached && w.tasks.all fun q => q.phase.grant?.map Prod.fst ≠ t.key
  | _ => true

def SingleUse (w : World) (e : Event) : Prop := singleUse w e = true

instance (w : World) (e : Event) : Decidable (SingleUse w e) :=
  inferInstanceAs (Decidable (_ = _))

def Fenced (w : World) (e : Event) : Prop :=
  SingleUse w e ∧ Ordered w e ∧ winnerCommitted w e = true

instance (w : World) (e : Event) : Decidable (Fenced w e) :=
  inferInstanceAs (Decidable (_ ∧ _ ∧ _))

/-- Call `i` now sets the account to deactivated, although another call has
redeemed the token it was started with. -/
def WrongfulDeactivation (env : Env) (w : World) (i : ℕ) (v : World) : Prop :=
  step env w (.deactivate i) = some v ∧ ∃ t n j, w.tasks[i]? = some t ∧ t.key = some n ∧
    w.redeemedBy.get? n = some j ∧ j ≠ i

/-- The call has not changed its account object yet. -/
def Phase.pending : Phase → Bool
  | .created | .sent _ | .answered _ _ | .rejected _ _ => true
  | _ => false

def Phase.token? : Phase → Option ℕ
  | .sent n | .answered n _ | .rejected n _ => some n
  | _ => none

theorem Phase.not_done_of_pending {p : Phase} (h : p.pending = true) : p.done = false := by
  cases p <;> simp_all [pending,done]

/-- The task is the one its process has in flight for its key, and the object
it works on still carries that key. -/
def Flying (w : World) (i : ℕ) (t : Task) : Prop :=
  w.inflight.get? (t.process,t.key) = some i ∧
    ∃ o, w.objects[t.object]? = some o ∧ o.process = t.process ∧ o.account.refreshToken = t.key

structure Inv (w : World) : Prop where
  order : TokenOrder w
  objects : ∀ o ∈ w.objects, ∀ n, o.account.refreshToken = some n → n < w.issued
  redeemed : ∀ n j, w.redeemedBy.get? n = some j → n < w.issued
  flying : ∀ i t, w.tasks[i]? = some t → t.phase.pending = true → Flying w i t
  key : ∀ t ∈ w.tasks, ∀ n, t.phase.token? = some n → t.key = some n
  unspent : ∀ t ∈ w.tasks, ∀ n m, t.phase.grant? = some (n,some m) → w.redeemedBy.get? m = none
  superseded : ∀ n j, w.redeemedBy.get? n = some j → w.row.refreshToken = some n →
    ∃ t ∈ w.tasks, t.phase.grant?.map Prod.fst = some n
  refused : ∀ t ∈ w.tasks, ∀ n e, t.phase = .rejected n e → ∃ j, w.redeemedBy.get? n = some j
  spared : ∀ t ∈ w.tasks, ∀ n e, t.phase ≠ .condemned n e

theorem Initial.inv {w : World} (h : Initial w) : Inv w := by
  refine ⟨h.tokenOrder,?_,?_,?_,?_,?_,?_,?_,?_⟩ <;> simp [h.objects,h.tasks,h.redeemedBy]

/-- What most steps leave alone, from the point of view of the invariant. -/
structure Frame (w v : World) : Prop where
  row : v.row.refreshToken = w.row.refreshToken
  issued : v.issued = w.issued
  redeemedBy : v.redeemedBy = w.redeemedBy
  live : KeepsLive w v
  objects : ∀ (i : ℕ) (o : AccountObject), w.objects[i]? = some o →
    ∃ q, v.objects[i]? = some q ∧ q.process = o.process ∧
      q.account.refreshToken = o.account.refreshToken
  bound : ∀ q ∈ v.objects, (∃ o ∈ w.objects, q.account.refreshToken = o.account.refreshToken) ∨
    q.account.refreshToken = w.row.refreshToken

section Steps
variable {w v : World} {i : ℕ} {t : Task} {p : Phase}

theorem isDone_of_pending (ht : w.tasks[i]? = some t) (hp : t.phase.pending = true) :
    w.isDone i = false := by
  simp [World.isDone,ht,not_done_of_pending hp]

theorem Frame.flying (hf : Frame w v) (ht : w.tasks[i]? = some t) (hp : t.phase.pending = true)
    (h : Flying w i t) : Flying v i t := by
  obtain ⟨hkey,o,ho,hproc,htok⟩ := h
  obtain ⟨q,hq,hqp,hqt⟩ := hf.objects _ o ho
  exact ⟨hf.live _ _ hkey (isDone_of_pending ht hp),q,hq,hqp.trans hproc,hqt.trans htok⟩

theorem Inv.of_bound (h : Inv w) (hf : Frame w v) :
    ∀ o ∈ v.objects, ∀ n, o.account.refreshToken = some n → n < v.issued := by
  intro q hq n hn
  rw [hf.issued]
  rcases hf.bound q hq with ⟨o,ho,he⟩ | he
  · exact h.objects o ho n (he ▸ hn)
  · exact h.order.row n (he ▸ hn)

theorem Inv.of_frame (h : Inv w) (hf : Frame w v) (htasks : v.tasks = w.tasks) : Inv v where
  order := (h.order.of_same hf.row hf.issued fun t ht => Or.inl (htasks ▸ ht)).1
  objects := h.of_bound hf
  redeemed := by rw [hf.redeemedBy,hf.issued]; exact h.redeemed
  flying := by
    intro i t ht hp
    rw [htasks] at ht
    exact hf.flying ht hp (h.flying i t ht hp)
  key := by rw [htasks]; exact h.key
  unspent := by rw [htasks,hf.redeemedBy]; exact h.unspent
  superseded := by rw [htasks,hf.redeemedBy,hf.row]; exact h.superseded
  refused := by rw [htasks,hf.redeemedBy]; exact h.refused
  spared := by rw [htasks]; exact h.spared

variable {q : Task}

theorem getElem?_set_of_some (ht : w.tasks[i]? = some t) {j : ℕ} :
    (w.tasks.set i q)[j]? = if j = i then some q else w.tasks[j]? := by
  have hlt := (List.getElem?_eq_some_iff.mp ht).choose
  simp only [List.getElem?_set,hlt,if_true]
  by_cases hj : j = i
  · simp [hj]
  · simp [hj,Ne.symm hj]

theorem getElem?_setPhase (ht : w.tasks[i]? = some t) {j : ℕ} :
    (w.setPhase i t p).tasks[j]? = if j = i then some {t with phase := p} else w.tasks[j]? :=
  getElem?_set_of_some ht

/-- A phase that a task without an uncommitted grant may move to. -/
structure Harmless (w : World) (t : Task) (p : Phase) : Prop where
  before : t.phase.grant? = none
  grant : p.grant? = none
  pending : p.pending = true → t.phase.pending = true
  token : ∀ n, p.token? = some n → t.key = some n
  refused : ∀ n e, p = .rejected n e → ∃ j, w.redeemedBy.get? n = some j
  spared : ∀ n e, p ≠ .condemned n e

theorem forall_mem_set {α : Type*} {l : List α} {b : α} {Q : α → Prop} (h : ∀ a ∈ l, Q a)
    (hb : Q b) : ∀ a ∈ l.set i b, Q a := by
  intro a ha
  rcases List.mem_or_eq_of_mem_set ha with ha | rfl
  · exact h a ha
  · exact hb

theorem Inv.setTask (h : Inv w) {b : Task} (ht : w.tasks[i]? = some t)
    (hb : b.process = t.process ∧ b.object = t.object ∧ b.key = t.key) (hp : Harmless w t b.phase) :
    Inv {w with tasks := w.tasks.set i b} where
  order := by
    have hsame : ∀ q ∈ w.tasks.set i b, q ∈ w.tasks ∨ q.phase.grant? = none := by
      intro q hq
      rcases List.mem_or_eq_of_mem_set hq with hq | rfl
      · exact Or.inl hq
      · exact Or.inr hp.grant
    exact (h.order.of_same (v := {w with tasks := w.tasks.set i b}) rfl rfl hsame).1
  objects := h.objects
  redeemed := h.redeemed
  flying := by
    intro j q hq hpend
    rw [getElem?_set_of_some ht] at hq
    split_ifs at hq with hj
    · cases hq
      subst hj
      have hfly := h.flying j t ht (hp.pending hpend)
      rw [Flying,← hb.1,← hb.2.1,← hb.2.2] at hfly
      exact hfly
    · exact h.flying j q hq hpend
  key := forall_mem_set h.key fun n hn => hb.2.2.trans (hp.token n hn)
  unspent := by
    refine forall_mem_set h.unspent fun n m hm => ?_
    rw [hp.grant] at hm
    cases hm
  superseded := by
    intro n j hj hrow
    obtain ⟨q,hq,hqn⟩ := h.superseded n j hj hrow
    obtain ⟨k,hk⟩ := List.mem_iff_getElem?.mp hq
    refine ⟨q,List.mem_of_getElem? (i := k) ?_,hqn⟩
    rw [getElem?_set_of_some ht,if_neg]
    · exact hk
    · rintro rfl
      rw [ht] at hk
      cases hk
      rw [hp.before] at hqn
      cases hqn
  refused := forall_mem_set h.refused hp.refused
  spared := forall_mem_set h.spared hp.spared

theorem Inv.setPhase (h : Inv w) (ht : w.tasks[i]? = some t) (hp : Harmless w t p) :
    Inv (w.setPhase i t p) := h.setTask ht ⟨rfl,rfl,rfl⟩ hp

theorem frame_append {w : World} (process : ℕ) :
    Frame w {w with objects := w.objects++[⟨process,w.row⟩]} := by
  refine ⟨rfl,rfl,rfl,fun _ _ hk _ => hk,?_,?_⟩
  · intro i o ho
    have hlt := (List.getElem?_eq_some_iff.mp ho).choose
    exact ⟨o,by rw [List.getElem?_append_left hlt]; exact ho,rfl,rfl⟩
  · intro q hq
    rcases List.mem_append.mp hq with hq | hq
    · exact Or.inl ⟨q,hq,rfl⟩
    · rw [List.mem_singleton.mp hq]
      exact Or.inr rfl

variable {o : AccountObject}

theorem frame_setAccount {a : Account} (ho : w.objects[i]? = some o)
    (ha : a.refreshToken = o.account.refreshToken) {writes : List (Option TokenUpdate)} :
    Frame w {w.setAccount i o a with writes := writes} := by
  refine ⟨rfl,rfl,rfl,fun _ _ hk _ => hk,?_,?_⟩
  · intro j q hq
    have hlt := (List.getElem?_eq_some_iff.mp ho).choose
    simp only [World.setAccount,List.getElem?_set]
    by_cases hj : i = j
    · subst hj
      rw [ho] at hq
      cases hq
      exact ⟨{o with account := a},by simp [hlt],rfl,ha⟩
    · exact ⟨q,by simp [hj,hq],rfl,rfl⟩
  · intro q hq
    rcases List.mem_or_eq_of_mem_set hq with hq | rfl
    · exact Or.inl ⟨q,hq,rfl⟩
    · exact Or.inl ⟨o,List.mem_of_getElem? ho,ha⟩

theorem frame_of_sameStore (h : SameStore w v) (hlive : KeepsLive w v) : Frame w v := by
  refine ⟨by rw [h.row],h.issued,h.redeemedBy,hlive,?_,?_⟩
  · intro i o ho
    exact ⟨o,by rw [h.objects]; exact ho,rfl,rfl⟩
  · intro q hq
    rw [h.objects] at hq
    exact Or.inl ⟨q,hq,rfl⟩

theorem Inv.create (h : Inv w) {attached : Bool} (ho : w.objects[i]? = some o) (hs : SameStore w v)
    (htasks : v.tasks = w.tasks++[⟨o.process,i,o.account.refreshToken,attached,.created,false⟩])
    (hkey : v.inflight.get? (o.process,o.account.refreshToken) = some w.tasks.length)
    (hlive : KeepsLive w v) : Inv v := by
  have hf := frame_of_sameStore hs hlive
  have hmem : ∀ t ∈ v.tasks, t ∈ w.tasks ∨ t.phase = .created := by
    intro t ht
    rw [htasks] at ht
    rcases List.mem_append.mp ht with ht | ht
    · exact Or.inl ht
    · exact Or.inr (by rw [List.mem_singleton.mp ht])
  refine ⟨?_,h.of_bound hf,?_,?_,?_,?_,?_,?_,?_⟩
  · refine (h.order.of_same hf.row hf.issued fun t ht => ?_).1
    exact (hmem t ht).imp_right fun hc => by rw [hc]; rfl
  · rw [hf.redeemedBy,hf.issued]
    exact h.redeemed
  · intro j t ht hp
    rw [htasks] at ht
    by_cases hj : j < w.tasks.length
    · rw [List.getElem?_append_left hj] at ht
      exact hf.flying ht hp (h.flying j t ht hp)
    · rw [List.getElem?_append_right (not_lt.mp hj)] at ht
      obtain ⟨hlt,he⟩ := List.getElem?_eq_some_iff.mp ht
      have hjl : j = w.tasks.length := by
        simp only [List.length_singleton] at hlt
        omega
      subst hjl
      simp only [Nat.sub_self,List.getElem_cons_zero] at he
      subst he
      exact ⟨hkey,o,by rw [hs.objects]; exact ho,rfl,rfl⟩
  · intro t ht n hn
    rcases hmem t ht with ht | hc
    · exact h.key t ht n hn
    · rw [hc] at hn
      cases hn
  · intro t ht n m hm
    rw [hf.redeemedBy]
    rcases hmem t ht with ht | hc
    · exact h.unspent t ht n m hm
    · rw [hc] at hm
      cases hm
  · intro n j hj hrow
    rw [hf.redeemedBy] at hj
    rw [hf.row] at hrow
    obtain ⟨q,hq,hqn⟩ := h.superseded n j hj hrow
    exact ⟨q,by rw [htasks]; exact List.mem_append_left _ hq,hqn⟩
  · intro t ht n e he
    rw [hf.redeemedBy]
    rcases hmem t ht with ht | hc
    · exact h.refused t ht n e he
    · rw [hc] at he
      cases he
  · intro t ht n e he
    rcases hmem t ht with ht | hc
    · exact h.spared t ht n e he
    · rw [hc] at he
      cases he

theorem Inv.eq_of_object (h : Inv w) {j : ℕ} (ht : w.tasks[i]? = some t)
    (hq : w.tasks[j]? = some q) (hpt : t.phase.pending = true) (hpq : q.phase.pending = true)
    (hobj : q.object = t.object) : j = i := by
  obtain ⟨hti,o,ho,hop,hok⟩ := h.flying i t ht hpt
  obtain ⟨hqj,o',ho',hop',hok'⟩ := h.flying j q hq hpq
  rw [hobj,ho] at ho'
  cases ho'
  rw [← hop',← hok',hop,hok,hti] at hqj
  exact (Option.some.inj hqj).symm

theorem mem_setPhase_self (ht : w.tasks[i]? = some t) :
    {t with phase := p} ∈ (w.setPhase i t p).tasks :=
  List.mem_of_getElem? (by rw [getElem?_setPhase ht,if_pos rfl])

theorem mem_setPhase_of_ne (ht : w.tasks[i]? = some t) (hq : q ∈ w.tasks) (hne : q ≠ t) :
    q ∈ (w.setPhase i t p).tasks := by
  obtain ⟨k,hk⟩ := List.mem_iff_getElem?.mp hq
  refine List.mem_of_getElem? (i := k) ?_
  rw [getElem?_setPhase ht,if_neg]
  · exact hk
  · rintro rfl
    rw [ht] at hk
    cases hk
    exact hne rfl

variable {token : ℕ}

theorem Inv.grant (h : Inv w) {r : TokenRefreshResult} (ht : w.tasks[i]? = some t)
    (hp : t.phase = .sent token) (hr : r.refreshToken = w.issued)
    (hfree : w.redeemedBy.get? token = none) (hserial : ∀ q ∈ w.tasks, q.phase.grant? = none)
    (horder : TokenOrder {w.setPhase i t (.answered token r) with
      issued := w.issued+1
      redeemedBy := w.redeemedBy.set token i}) :
    Inv {w.setPhase i t (.answered token r) with
      issued := w.issued+1
      redeemedBy := w.redeemedBy.set token i} := by
  have hpend : t.phase.pending = true := by rw [hp]; rfl
  have hkey : t.key = some token := h.key t (List.mem_of_getElem? ht) token (by rw [hp]; rfl)
  have htoken : token < w.issued := by
    obtain ⟨_,o,ho,_,hok⟩ := h.flying i t ht hpend
    exact h.objects o (List.mem_of_getElem? ho) token (hok.trans hkey)
  refine ⟨horder,?_,?_,?_,?_,?_,?_,?_,?_⟩
  · exact fun o ho n hn => (h.objects o ho n hn).trans (Nat.lt_succ_self _)
  · intro n j hj
    rw [Dict.get?_set] at hj
    split_ifs at hj with hn
    · subst hn
      exact htoken.trans (Nat.lt_succ_self _)
    · exact (h.redeemed n j hj).trans (Nat.lt_succ_self _)
  · intro j q hq hpq
    rw [getElem?_setPhase ht] at hq
    split_ifs at hq with hj
    · cases hq
      subst hj
      exact h.flying j t ht hpend
    · exact h.flying j q hq hpq
  · refine forall_mem_set h.key fun n hn => ?_
    cases hn
    exact hkey
  · intro q hq n m hm
    rcases mem_setPhase hq with hq | rfl
    · rw [hserial q hq] at hm
      cases hm
    · simp only [grant?,Option.some.injEq,Prod.mk.injEq,hr] at hm
      rw [← hm.2,Dict.get?_set,if_neg htoken.ne']
      cases hget : w.redeemedBy.get? w.issued with
      | none => rfl
      | some j => exact absurd (h.redeemed _ j hget) (lt_irrefl _)
  · intro n j hj hrow
    rw [Dict.get?_set] at hj
    split_ifs at hj with hn
    · exact ⟨_,mem_setPhase_self ht,by simp [grant?,hn]⟩
    · obtain ⟨q,hq,hqn⟩ := h.superseded n j hj hrow
      rw [hserial q hq] at hqn
      cases hqn
  · intro q hq n e he
    rcases mem_setPhase hq with hq | rfl
    · obtain ⟨j,hj⟩ := h.refused q hq n e he
      rw [Dict.get?_set]
      split_ifs
      · exact ⟨i,rfl⟩
      · exact ⟨j,hj⟩
    · cases he
  · exact forall_mem_set h.spared (by simp)

theorem Inv.resume (h : Inv w) {r : TokenRefreshResult} {a : Account} (ht : w.tasks[i]? = some t)
    (ho : w.objects[t.object]? = some o) (hp : t.phase = .answered token r)
    (ha : a.refreshToken = some r.refreshToken)
    (horder : TokenOrder ((w.setAccount t.object o a).setPhase i t (.writing token a.tokenUpdate))) :
    Inv ((w.setAccount t.object o a).setPhase i t (.writing token a.tokenUpdate)) := by
  have hpend : t.phase.pending = true := by rw [hp]; rfl
  have hmem := List.mem_of_getElem? ht
  have hgrant : t.phase.grant? = some (token,some r.refreshToken) := by rw [hp]; rfl
  have ht' : (w.setAccount t.object o a).tasks[i]? = some t := ht
  refine ⟨horder,?_,h.redeemed,?_,?_,?_,?_,?_,?_⟩
  · intro q hq n hn
    rcases List.mem_or_eq_of_mem_set hq with hq | rfl
    · exact h.objects q hq n hn
    · obtain ⟨k,hk,hlast⟩ := h.order.newest t hmem _ _ hgrant
      cases hk
      rw [ha] at hn
      cases hn
      change r.refreshToken < w.issued
      omega
  · intro j q hq hpq
    rw [getElem?_setPhase ht'] at hq
    split_ifs at hq with hj
    · cases hq
      cases hpq
    · obtain ⟨hkey,b,hb,hbp,hbk⟩ := h.flying j q hq hpq
      have hne : t.object ≠ q.object :=
        fun he => hj (h.eq_of_object ht hq hpend hpq he.symm)
      exact ⟨hkey,b,by rw [← hb]; exact List.getElem?_set_ne hne,hbp,hbk⟩
  · exact forall_mem_set h.key (by rintro _ ⟨⟩)
  · refine forall_mem_set h.unspent fun n m hm => h.unspent t hmem n m ?_
    rw [hgrant,← hm]
    simp [grant?,Account.tokenUpdate,ha]
  · intro n j hj hrow
    obtain ⟨q,hq,hqn⟩ := h.superseded n j hj hrow
    by_cases hqt : q = t
    · subst hqt
      refine ⟨_,mem_setPhase_self ht',?_⟩
      rw [← hqn,hgrant]
      rfl
    · exact ⟨q,mem_setPhase_of_ne ht' hq hqt,hqn⟩
  · exact forall_mem_set h.refused (by simp)
  · exact forall_mem_set h.spared (by simp)

theorem Inv.commit (h : Inv w) {u : TokenUpdate} (ht : w.tasks[i]? = some t)
    (hp : t.phase = .writing token u)
    (horder : TokenOrder {w.setPhase i t (.returned t.object) with row := w.row.updateTokens u}) :
    Inv {w.setPhase i t (.returned t.object) with row := w.row.updateTokens u} := by
  have hmem := List.mem_of_getElem? ht
  have hgrant : t.phase.grant? = some (token,u.refreshToken) := by rw [hp]; rfl
  refine ⟨horder,h.objects,h.redeemed,?_,?_,?_,?_,?_,?_⟩
  · intro j q hq hpq
    rw [getElem?_setPhase ht] at hq
    split_ifs at hq with hj
    · cases hq
      cases hpq
    · exact h.flying j q hq hpq
  · exact forall_mem_set h.key nofun
  · exact forall_mem_set h.unspent nofun
  · intro n j hj hrow
    change w.redeemedBy.get? n = some j at hj
    change u.refreshToken = some n at hrow
    rw [hrow] at hgrant
    rw [h.unspent t hmem token n hgrant] at hj
    cases hj
  · exact forall_mem_set h.refused nofun
  · exact forall_mem_set h.spared nofun

/-- Cleaning up marks a finished task and then only drops its own entry. -/
theorem Inv.complete (h : Inv w) {env : Env} {clock : ℤ} (ht : w.tasks[i]? = some t)
    (hd : t.phase.done = true) : Inv (w.completeTask env i t clock) := by
  have hmem := List.mem_of_getElem? ht
  have hnone : t.phase.grant? = none := by
    cases hph : t.phase <;> simp_all [done,grant?]
  have hmark : Inv {w with tasks := w.tasks.set i {t with completed := true}} :=
    h.setTask ht ⟨rfl,rfl,rfl⟩ ⟨hnone,hnone,id,h.key t hmem,h.refused t hmem,h.spared t hmem⟩
  refine hmark.of_frame (frame_of_sameStore ⟨rfl,rfl,rfl,rfl⟩ ?_) rfl
  intro k j hk hj
  have hne : j ≠ i := by
    rintro rfl
    simp [World.isDone,getElem?_set_of_some ht,hd] at hj
  simp only [World.completeTask]
  split_ifs with hcur
  · rw [Dict.get?_pop,if_neg]
    · exact hk
    · rintro rfl
      rw [show w.inflight.get? _ = some j from hk,Option.some.injEq] at hcur
      exact hne hcur
  · exact hk

/-- The re-read of a fenced call finds the winner's token. -/
theorem Inv.not_condemned (h : Inv w) {e : RefreshError} (ht : w.tasks[i]? = some t)
    (ho : w.objects[t.object]? = some o) (hp : t.phase = .rejected token e)
    (hG : winnerCommitted w (.reread i) = true) :
    ¬ (t.attached = true ∨ w.row.refreshToken = o.account.refreshToken) := by
  have hmem := List.mem_of_getElem? ht
  simp only [winnerCommitted,ht,Option.all_some,Bool.and_eq_true,Bool.not_eq_true',
    List.all_eq_true,decide_eq_true_eq] at hG
  obtain ⟨hdetached,hcommitted⟩ := hG
  have hkey : t.key = some token := h.key t hmem token (by rw [hp]; rfl)
  rintro (ha | hsame)
  · rw [ha] at hdetached
    cases hdetached
  · obtain ⟨j,hj⟩ := h.refused t hmem token e hp
    obtain ⟨_,b,hb,_,hbk⟩ := h.flying i t ht (by rw [hp]; rfl)
    rw [ho] at hb
    cases hb
    obtain ⟨q,hq,hqn⟩ := h.superseded token j hj (by rw [hsame,hbk,hkey])
    exact hcommitted q hq (hqn.trans hkey.symm)

theorem Inv.step {env : Env} {e : Event} (h : Inv w) (hG : Fenced w e)
    (hstep : Transition env w e v) : Inv v := by
  have horder : TokenOrder v := (tokenOrder_step h.order hG.2.1 hstep).1
  cases hstep with
  | load p => exact h.of_frame (frame_append p) rfl
  | run ho =>
    obtain ⟨hsame,⟨htasks,hlive⟩ | ⟨htasks,hkey,hlive⟩⟩ := singleflightRun_spec w _ _ _ _
    · exact h.of_frame (frame_of_sameStore hsame hlive) htasks
    · exact h.create ho hsame htasks hkey fun k j hk hj => (hlive k j hk hj).2
  | idle => exact h
  | @send i token t o ht ho hp hk =>
    obtain ⟨_,b,hb,_,hbk⟩ := h.flying i t ht (by rw [hp]; rfl)
    rw [ho] at hb
    cases hb
    refine h.setPhase ht ⟨by rw [hp]; rfl,rfl,fun _ => by rw [hp]; rfl,?_,by simp,by simp⟩
    intro n hn
    cases hn
    rw [← hbk,hk]
  | skip ht hp | fail ht hp => exact h.setPhase ht ⟨by rw [hp]; rfl,rfl,by simp [pending],
      by simp [token?],by simp,by simp⟩
  | @reject i token e t ht hp =>
    have huse : (w.redeemedBy.get? token).isSome = true := by
      simpa [SingleUse,singleUse,ht,hp] using hG.1
    refine h.setPhase ht ⟨by rw [hp]; rfl,rfl,fun _ => by rw [hp]; rfl,?_,?_,by simp⟩
    · intro n hn
      cases hn
      exact h.key t (List.mem_of_getElem? ht) token (by rw [hp]; rfl)
    · intro n e' he
      cases he
      exact Option.isSome_iff_exists.mp huse
  | grant ht hp =>
    refine h.grant ht hp rfl ?_ ?_ horder
    · simpa [SingleUse,singleUse,ht,hp] using hG.1
    · intro q hq
      simpa using List.all_eq_true.mp hG.2.1.1 q hq
  | resume ht ho hp => exact h.resume ht ho hp rfl horder
  | commit ht hp => exact h.commit ht hp horder
  | @found i token e t o ht ho hp ha =>
    have hret : Inv (w.setPhase i t (.returned w.objects.length)) :=
      h.setPhase ht ⟨by rw [hp]; rfl,rfl,by simp [pending],by simp [token?],
        by simp,by simp⟩
    exact hret.of_frame (frame_append t.process) rfl
  | condemn ht ho hp hsame => exact absurd hsame (h.not_condemned ht ho hp hG.2.2)
  | deactivate ht ho hp ha => exact absurd hp (h.spared _ (List.mem_of_getElem? ht) _ _)
  | complete ht hd => exact h.complete ht hd
  | writeBack _ ho ha => exact h.of_frame (frame_setAccount ho ha) rfl
  | @commitWrite i u hu =>
    have hrow : u.refreshToken = w.row.refreshToken := by
      simpa [currentWriteBacks,hu] using hG.2.1.2
    refine h.of_frame ⟨hrow,rfl,rfl,fun _ _ hk _ => hk,fun _ o ho => ⟨o,ho,rfl,rfl⟩,?_⟩ rfl
    exact fun q hq => Or.inl ⟨q,hq,rfl⟩

end Steps

/-- In every run whose steps are fenced no call deactivates the account for a
token that another call has redeemed. -/
theorem no_wrongful_deactivation {env : Env} {w u : World} {es : List Event} (hw : Initial w)
    (h : Run (restrict (Steps (step env)) Fenced) w es u) (i : ℕ) (v : World) :
    ¬ WrongfulDeactivation env u i v := by
  have hu : Inv u := h.invariant (I := Inv)
    (fun s e t hs hst => hs.step hst.1 (transition_of_step hst.2)) hw.inv
  rintro ⟨hstep,_⟩
  cases transition_of_step hstep with
  | idle he | writeBack he ho ha => cases he
  | deactivate ht ho hp ha => exact hu.spared _ (List.mem_of_getElem? ht) _ _ hp

/-- Two processes refresh token 0; the first is granted, the second rejected. -/
def rejectedSecond : List Event :=
  [.load 0,.load 1,.ensureFresh 0 false true 9 0,.ensureFresh 1 false true 9 0,.start 0,.start 1,
    .grant 0 "a1" "i1" none none none,
    .reject 1 ⟨"refresh_token_reused","reused",true,false⟩]

theorem no_wrongful_deactivation_winner_commits : ∃ u,
    Run (restrict (Steps (step plainEnv)) Fenced) importedWorld
      (rejectedSecond++[.resume 0 9,.commit 0,.reread 1]) u ∧
    u.row.refreshToken = some 1 ∧ ∀ v, ¬ WrongfulDeactivation plainEnv u 1 v :=
  exists_run_with (fun _ hrun htoken =>
    ⟨htoken,no_wrongful_deactivation importedWorld_initial hrun 1⟩) (by decide)

/-- The second process re-reads the row before the first has committed. -/
theorem loser_deactivates_before_commit : ∃ es u v,
    Run (restrict (Steps (step plainEnv)) SingleUse) importedWorld es u ∧
      WrongfulDeactivation plainEnv u 1 v ∧ v.row.status = .deactivated := by
  obtain ⟨u,hrun,htask,hredeemed,hnext⟩ := exists_run_of_exec (f := step plainEnv) (G := SingleUse)
    (s := importedWorld)
    (p := fun u => u.tasks[1]?.map (·.key) = some (some 0) ∧ u.redeemedBy.get? 0 = some 0 ∧
      (step plainEnv u (.deactivate 1)).any (fun v => v.row.status = .deactivated) = true)
    (show (exec _ _ _ (rejectedSecond++[.reread 1])).any _ = true by decide)
  obtain ⟨t,ht,hkey⟩ := Option.map_eq_some_iff.mp htask
  cases hv : step plainEnv u (.deactivate 1) with
  | none => simp [hv] at hnext
  | some v => exact ⟨_,u,v,hrun,⟨hv,t,0,0,ht,hkey,hredeemed,by decide⟩,by simpa [hv] using hnext⟩

end CodexLb.TokenRefresh
