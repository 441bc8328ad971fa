import CodexLb.LookupCaches

/-!
# Invalidation across processes

`app/core/cache/invalidation.py`: writers in other processes commit a change and then
bump the version of a namespace; a poller in this process reads all versions and
calls back for those that have changed. The callback of the API keys clears their
cache.

The first sight of a namespace is special: in the first poll it is only noted, later
it counts as a change. A poll is two steps, the read of the versions and the work on
them, and anything may happen in between.
-/
namespace CodexLb.InvalidationPoller
open Runs ReadThrough LookupCaches Dict

abbrev apiKeyNamespace := "api_key"

structure Poller where
  knownVersions : Dict String ℕ
  pollInitialized : Bool

/-- The callbacks of the namespace are due. -/
def Poller.changed (p : Poller) (row : String × ℕ) : Bool :=
  match p.knownVersions.get? row.1 with
  | some prev => row.2 ≠ prev
  | none => p.pollInitialized && row.2 > 0

def Poller.noted (p : Poller) (row : String × ℕ) : Poller :=
  {p with knownVersions := p.knownVersions.set row.1 row.2}

/-- The loop of `_poll_once`, with the namespaces whose callbacks it runs. -/
def Poller.scan : Poller → List (String × ℕ) → Poller × List String
  | p,[] => (p,[])
  | p,row::rows =>
    let r := (p.noted row).scan rows
    (r.1,if p.changed row then row.1::r.2 else r.2)

def Poller.pollOnce (p : Poller) (rows : Dict String ℕ) : Poller × List String :=
  let r := p.scan rows.rows
  ({r.1 with pollInitialized := true},r.2)

/-- `bump` of the table of versions. -/
def bumped (versions : Dict String ℕ) (ns : String) : Dict String ℕ :=
  versions.set ns ((versions.get? ns).elim 1 (·+1))

variable {ns : String} {rows : List (String × ℕ)}

theorem scan_absent (h : ∀ row ∈ rows, row.1 ≠ ns) :
    ∀ p : Poller, (p.scan rows).1.knownVersions.get? ns = p.knownVersions.get? ns ∧
      ns ∉ (p.scan rows).2 := by
  induction rows with
  | nil => exact fun p => ⟨rfl,List.not_mem_nil⟩
  | cons row rows ih =>
    intro p
    have hne := h row List.mem_cons_self
    obtain ⟨hknown,hquiet⟩ := ih (fun q hq => h q (List.mem_cons_of_mem _ hq)) (p.noted row)
    refine ⟨hknown.trans ?_,?_⟩
    · rw [Poller.noted,get?_set,if_neg hne.symm]
    · rw [Poller.scan]
      split_ifs
      · rw [List.mem_cons,not_or]; exact ⟨hne.symm,hquiet⟩
      · exact hquiet

theorem scan_present {version : ℕ} (hnodup : (rows.map Prod.fst).Nodup) (h : (ns,version) ∈ rows) :
    ∀ p : Poller, (p.scan rows).1.knownVersions.get? ns = some version ∧
      (ns ∈ (p.scan rows).2 ↔ p.changed (ns,version) = true) := by
  induction rows with
  | nil => cases h
  | cons row rows ih =>
    intro p
    obtain ⟨hfresh,hnodup⟩ := List.nodup_cons.1 hnodup
    have habsent {key : String} (hkey : key = row.1) : ∀ q ∈ rows, q.1 ≠ key := by
      rintro q hq rfl
      exact hfresh (hkey ▸ List.mem_map_of_mem hq)
    rcases List.mem_cons.1 h with rfl | hrest
    · obtain ⟨hknown,hquiet⟩ := scan_absent (habsent rfl) (p.noted (ns,version))
      refine ⟨hknown.trans ?_,?_⟩
      · rw [Poller.noted,get?_set,if_pos rfl]
      · rw [Poller.scan]
        split_ifs with hchanged
        · exact ⟨fun _ => hchanged,fun _ => List.mem_cons_self⟩
        · exact ⟨fun hmem => absurd hmem hquiet,fun hc => absurd hc hchanged⟩
    · have hne : ns ≠ row.1 := fun heq => habsent heq _ hrest rfl
      obtain ⟨hknown,hfired⟩ := ih hnodup hrest (p.noted row)
      have hsame : (p.noted row).changed (ns,version) = p.changed (ns,version) := by
        rw [Poller.changed,Poller.changed,Poller.noted,get?_set,if_neg hne]
      rw [hsame] at hfired
      refine ⟨hknown,?_⟩
      rw [Poller.scan]
      split_ifs
      · rw [List.mem_cons,hfired]
        exact or_iff_right hne
      · exact hfired

theorem pollOnce_spec {p : Poller} {rows : Dict String ℕ} :
    (p.pollOnce rows).1.knownVersions.get? ns = (rows.get? ns).or (p.knownVersions.get? ns) ∧
      (ns ∈ (p.pollOnce rows).2 ↔ ∃ version, rows.get? ns = some version ∧
        p.changed (ns,version) = true) := by
  cases hrow : rows.get? ns with
  | none =>
    obtain ⟨hknown,hquiet⟩ := scan_absent (get?_eq_none.1 hrow) p
    exact ⟨hknown,⟨fun h => absurd h hquiet,fun ⟨_,h,_⟩ => (nomatch h)⟩⟩
  | some version =>
    obtain ⟨hknown,hfired⟩ := scan_present rows.nodup (get?_eq_some.1 hrow) p
    refine ⟨hknown,hfired.trans ⟨fun h => ⟨version,rfl,h⟩,?_⟩⟩
    rintro ⟨other,hother,hchanged⟩
    cases hother
    exact hchanged

abbrev KeyCache := ApiKeyCache (Loaded ApiKeyData)

structure Bump where
  commit : ℕ
  version : ℕ

/-- The versions a poll has read, and the commits that were bumped by then. -/
structure Poll where
  rows : Dict String ℕ
  commits : List ℕ

/-- `pending` are the commits that are not bumped yet. `reached` are those whose bump
a finished poll has read. -/
structure Replica where
  reader : Reader KeyCache String
  versions : Dict String ℕ
  poller : Poller
  polling : Option Poll
  pending : Dict ℕ ℕ
  bumps : List Bump
  reached : List ℕ

inductive Event where
  | move (a : Move Moment String ApiKeyData)
  | commit (id : ℕ)
  | bump (id : ℕ)
  | bumpOther (ns : String)
  | pollRead
  | pollFinish

namespace Replica

def start (cache : KeyCache) (versions : Dict String ℕ) : Replica :=
  ⟨⟨cache,empty,0⟩,versions,⟨empty,false⟩,none,empty,[],[]⟩

def nextVersion (w : Replica) : ℕ := (w.versions.get? apiKeyNamespace).elim 1 (·+1)

def step (w : Replica) : Event → Option Replica
  | .move a => (w.reader.move apiKeys a).map fun r => {w with reader := r}
  | .commit id =>
    match w.pending.get? id with
    | some _ => none
    | none => some {w with
        reader := w.reader.idle
        pending := w.pending.set id w.reader.now}
  | .bump id =>
    match w.pending.get? id with
    | none => none
    | some commit => some {w with
        reader := w.reader.idle
        pending := w.pending.pop id
        versions := bumped w.versions apiKeyNamespace
        bumps := ⟨commit,w.nextVersion⟩::w.bumps}
  | .bumpOther ns =>
    if ns = apiKeyNamespace then none
    else some {w with
      reader := w.reader.idle
      versions := bumped w.versions ns}
  | .pollRead =>
    match w.polling with
    | some _ => none
    | none => some {w with
        reader := w.reader.idle
        polling := some ⟨w.versions,w.bumps.map Bump.commit⟩}
  | .pollFinish =>
    match w.polling with
    | none => none
    | some poll =>
      let r := w.poller.pollOnce poll.rows
      some {w with
        reader := if apiKeyNamespace ∈ r.2 then w.reader.invalidated apiKeys .all
          else w.reader.idle
        poller := r.1
        polling := none
        reached := poll.commits++w.reached}

/-- No value that the process has or is loading was read up to the time. -/
def Recent (reader : Reader KeyCache String) (c : ℕ) : Prop :=
  (∀ q ∈ reader.cache.cache.rows, ∀ t ∈ q.2.data.reads, c < t) ∧
    ∀ q ∈ reader.lookups.rows, ∀ t ∈ q.2.reads, c < t

instance (reader : Reader KeyCache String) (c : ℕ) : Decidable (Recent reader c) :=
  inferInstanceAs (Decidable (_ ∧ _))

/-- Before the first poll has read the versions, the namespace is bumped only while
the process has nothing that was read before the writer's commit. -/
def Noticed (w : Replica) : Event → Prop
  | .bump id => w.poller.pollInitialized = false → w.polling.isNone = true →
      ∀ commit ∈ w.pending.get? id, Recent w.reader commit
  | _ => True

instance (w : Replica) : (e : Event) → Decidable (w.Noticed e)
  | .bump id => inferInstanceAs (Decidable (_ → _ → ∀ commit ∈ w.pending.get? id,
      Recent w.reader commit))
  | .move _ | .commit _ | .bumpOther _ | .pollRead | .pollFinish => .isTrue trivial

/-- A commit is old news to the cache. -/
def Settled (w : Replica) (c : ℕ) : Prop := Fresh apiKeys c (fun _ => True) w.reader

structure Inv (w : Replica) : Prop where
  behind : w.reader.Behind apiKeys
  pending : ∀ id c, w.pending.get? id = some c → c < w.reader.now
  passed : ∀ b ∈ w.bumps, b.commit < w.reader.now
  counted : ∀ b ∈ w.bumps, 0 < b.version ∧
    ∃ n, w.versions.get? apiKeyNamespace = some n ∧ b.version ≤ n
  known_le : ∀ m, w.poller.knownVersions.get? apiKeyNamespace = some m →
    ∃ n, w.versions.get? apiKeyNamespace = some n ∧ m ≤ n
  known : ∀ m, w.poller.knownVersions.get? apiKeyNamespace = some m →
    ∀ b ∈ w.bumps, b.version ≤ m → w.Settled b.commit
  unread : w.poller.pollInitialized = false → w.polling = none →
    ∀ b ∈ w.bumps, w.Settled b.commit
  read_le : ∀ poll, w.polling = some poll → ∀ m, poll.rows.get? apiKeyNamespace = some m →
    ∃ n, w.versions.get? apiKeyNamespace = some n ∧ m ≤ n
  read : ∀ poll, w.polling = some poll → ∀ c ∈ poll.commits, ∃ m b,
    poll.rows.get? apiKeyNamespace = some m ∧ b ∈ w.bumps ∧ b.commit = c ∧ b.version ≤ m
  first : ∀ poll, w.polling = some poll → w.poller.pollInitialized = false →
    ∀ m, poll.rows.get? apiKeyNamespace = some m → ∀ b ∈ w.bumps, b.version ≤ m →
      w.Settled b.commit
  reached : ∀ c ∈ w.reached, c < w.reader.now ∧ w.Settled c

theorem inv_start {cache : KeyCache} {versions : Dict String ℕ} : (start cache versions).Inv where
  behind _ _ _ _ h := not_mem_empty h
  pending _ _ h := not_mem_empty h
  passed := nofun
  counted := nofun
  known_le _ h := not_mem_empty h
  known _ h := not_mem_empty h
  unread _ _ := nofun
  read_le := nofun
  read := nofun
  first := nofun
  reached := nofun

/-- The cache has taken a step of a lookup or of time, or was cleared. -/
def Turned (w u : Replica) : Prop :=
  Effect apiKeys w.reader u.reader ∨ u.reader = w.reader.invalidated apiKeys .all

variable {w u : Replica}

theorem Turned.now (h : Turned w u) : u.reader.now = w.reader.now+1 := by
  rcases h with h | h
  · exact now_effect h
  · rw [h]; rfl

theorem Turned.behind (h : Turned w u) (hw : w.Inv) : u.reader.Behind apiKeys := by
  rcases h with h | h
  · exact behind_effect hw.behind h
  · rw [h]; exact behind_invalidated hw.behind _

variable {c : ℕ}

theorem Turned.settled (h : Turned w u) (hw : w.Inv) (hc : c < w.reader.now)
    (hsettled : w.Settled c) : u.Settled c := by
  rcases h with h | h
  · exact Fresh.effect hsettled hw.behind hc h
  · rw [Settled,h]; exact Fresh.invalidated hsettled hw.behind _

theorem Inv.turned (h : w.Inv) {r : Reader KeyCache String}
    (hturned : Turned w {w with reader := r}) : ({w with reader := r} : Replica).Inv := by
  have hlater {c : ℕ} (hc : c < w.reader.now) : c < r.now := by
    have hnow : r.now = w.reader.now+1 := hturned.now
    rw [hnow]
    exact hc.trans (Nat.lt_succ_self _)
  have hkeep {b : Bump} (hb : b ∈ w.bumps) (hsettled : w.Settled b.commit) :
      ({w with reader := r} : Replica).Settled b.commit :=
    hturned.settled h (h.passed b hb) hsettled
  exact {
    behind := hturned.behind h
    pending := fun id c hc => hlater (h.pending id c hc)
    passed := fun b hb => hlater (h.passed b hb)
    counted := h.counted
    known_le := h.known_le
    known := fun m hm b hb hle => hkeep hb (h.known m hm b hb hle)
    unread := fun hi hp b hb => hkeep hb (h.unread hi hp b hb)
    read_le := h.read_le
    read := h.read
    first := fun poll hp hi m hm b hb hle => hkeep hb (h.first poll hp hi m hm b hb hle)
    reached := fun c hc => ⟨hlater (h.reached c hc).1,
      hturned.settled h (h.reached c hc).1 (h.reached c hc).2⟩}

theorem Inv.idle (h : w.Inv) : ({w with reader := w.reader.idle} : Replica).Inv :=
  h.turned (.inl .idle)

theorem Inv.commit (h : w.Inv) (id : ℕ) : ({w with
    reader := w.reader.idle
    pending := w.pending.set id w.reader.now} : Replica).Inv :=
  {h.idle with
    pending := by
      intro j c hc
      simp only [get?_set] at hc
      split_ifs at hc
      · rw [← Option.some.inj hc]; exact Nat.lt_succ_self _
      · exact h.idle.pending j c hc}

theorem settled_of_recent {reader : Reader KeyCache String} (h : Recent reader c) :
    Fresh apiKeys c (fun _ => True) reader where
  entries _ hholds := by
    obtain ⟨expiresAt,hentry⟩ := hholds
    exact h.1 _ (get?_eq_some.1 hentry)
  loading _ hstage _ := h.2 _ (get?_eq_some.1 hstage)

theorem bumped_self (versions : Dict String ℕ) (ns : String) :
    (bumped versions ns).get? ns = some ((versions.get? ns).elim 1 (·+1)) := by
  rw [bumped,get?_set,if_pos rfl]

variable {m : ℕ}

theorem nextVersion_gt (h : ∃ n, w.versions.get? apiKeyNamespace = some n ∧ m ≤ n) :
    m < w.nextVersion := by
  obtain ⟨n,hn,hle⟩ := h
  rw [nextVersion,hn]
  exact Nat.lt_succ_of_le hle

theorem Inv.bump (h : w.Inv) {id : ℕ} (hpending : w.pending.get? id = some c)
    (hnoticed : w.poller.pollInitialized = false → w.polling = none → Recent w.reader c) :
    ({w with
      reader := w.reader.idle
      pending := w.pending.pop id
      versions := bumped w.versions apiKeyNamespace
      bumps := ⟨c,w.nextVersion⟩::w.bumps} : Replica).Inv := by
  have hversion := bumped_self w.versions apiKeyNamespace
  have hlift {m : ℕ} (hm : ∃ n, w.versions.get? apiKeyNamespace = some n ∧ m ≤ n) :
      ∃ n, (bumped w.versions apiKeyNamespace).get? apiKeyNamespace = some n ∧ m ≤ n :=
    ⟨_,hversion,(nextVersion_gt hm).le⟩
  exact {h.idle with
    pending := by
      intro j d hd
      simp only [get?_pop] at hd
      split_ifs at hd
      exact h.idle.pending j d hd
    passed := by
      intro b hb
      rcases List.mem_cons.1 hb with rfl | hb
      · exact h.idle.pending id c hpending
      · exact h.idle.passed b hb
    counted := by
      intro b hb
      rcases List.mem_cons.1 hb with rfl | hb
      · refine ⟨?_,_,hversion,le_rfl⟩
        rw [nextVersion]
        cases w.versions.get? apiKeyNamespace <;> exact Nat.succ_pos _
      · exact ⟨(h.counted b hb).1,hlift (h.counted b hb).2⟩
    known_le := fun m hm => hlift (h.known_le m hm)
    known := by
      intro m hm b hb hle
      rcases List.mem_cons.1 hb with rfl | hb
      · exact absurd hle (Nat.not_le.2 (nextVersion_gt (h.known_le m hm)))
      · exact h.idle.known m hm b hb hle
    unread := by
      intro hi hp b hb
      rcases List.mem_cons.1 hb with rfl | hb
      · exact settled_of_recent (hnoticed hi hp)
      · exact h.idle.unread hi hp b hb
    read_le := fun poll hp m hm => hlift (h.read_le poll hp m hm)
    read := by
      intro poll hp d hd
      obtain ⟨m,b,hm,hb,hbd,hle⟩ := h.read poll hp d hd
      exact ⟨m,b,hm,List.mem_cons_of_mem _ hb,hbd,hle⟩
    first := by
      intro poll hp hi m hm b hb hle
      rcases List.mem_cons.1 hb with rfl | hb
      · exact absurd hle (Nat.not_le.2 (nextVersion_gt (h.read_le poll hp m hm)))
      · exact h.idle.first poll hp hi m hm b hb hle}

theorem Inv.bumpOther (h : w.Inv) {ns : String} (hns : ns ≠ apiKeyNamespace) : ({w with
    reader := w.reader.idle
    versions := bumped w.versions ns} : Replica).Inv := by
  have hsame : (bumped w.versions ns).get? apiKeyNamespace =
      w.versions.get? apiKeyNamespace := by
    rw [bumped,get?_set,if_neg hns.symm]
  exact {h.idle with
    counted := by rw [hsame]; exact h.counted
    known_le := by rw [hsame]; exact h.known_le
    read_le := by rw [hsame]; exact h.read_le}

theorem Inv.pollRead (h : w.Inv) (hnone : w.polling = none) : ({w with
    reader := w.reader.idle
    polling := some ⟨w.versions,w.bumps.map Bump.commit⟩} : Replica).Inv :=
  {h.idle with
    unread := nofun
    read_le := by
      rintro poll ⟨⟩ m hm
      exact ⟨m,hm,le_rfl⟩
    read := by
      rintro poll ⟨⟩ c hc
      obtain ⟨b,hb,rfl⟩ := List.mem_map.1 hc
      obtain ⟨-,n,hn,hle⟩ := h.counted b hb
      exact ⟨n,b,hn,hb,rfl,hle⟩
    first := by
      rintro poll ⟨⟩ hi m _ b hb _
      exact h.idle.unread hi hnone b hb}

theorem pollFinish_settled (h : w.Inv) {poll : Poll} (hpoll : w.polling = some poll)
    (hm : poll.rows.get? apiKeyNamespace = some m)
    (hquiet : apiKeyNamespace ∉ (w.poller.pollOnce poll.rows).2) {b : Bump} (hb : b ∈ w.bumps)
    (hle : b.version ≤ m) : w.Settled b.commit := by
  have hunchanged : w.poller.changed (apiKeyNamespace,m) ≠ true := fun hchanged =>
    hquiet ((pollOnce_spec).2.2 ⟨m,hm,hchanged⟩)
  rw [Poller.changed] at hunchanged
  cases hknown : w.poller.knownVersions.get? apiKeyNamespace with
  | some prev =>
    have hprev : m = prev := by simpa [hknown] using hunchanged
    exact h.known prev hknown b hb (hprev ▸ hle)
  | none =>
    have hpositive : 0 < m := (h.counted b hb).1.trans_le hle
    have hfirst : w.poller.pollInitialized = false := by
      simpa [hknown,hpositive] using hunchanged
    exact h.first poll hpoll hfirst m hm b hb hle

theorem Inv.pollFinish (h : w.Inv) {poll : Poll} (hpoll : w.polling = some poll) : ({w with
    reader := if apiKeyNamespace ∈ (w.poller.pollOnce poll.rows).2 then
        w.reader.invalidated apiKeys .all else w.reader.idle
    poller := (w.poller.pollOnce poll.rows).1
    polling := none
    reached := poll.commits++w.reached} : Replica).Inv := by
  obtain ⟨hknown,-⟩ := pollOnce_spec
  generalize hr : (if apiKeyNamespace ∈ (w.poller.pollOnce poll.rows).2 then
    w.reader.invalidated apiKeys .all else w.reader.idle) = r
  have hturned : Turned w {w with reader := r} := by
    rw [← hr]
    split_ifs
    · exact .inr rfl
    · exact .inl .idle
  have hsettled : ∀ m, poll.rows.get? apiKeyNamespace = some m → ∀ b ∈ w.bumps,
      b.version ≤ m → ({w with reader := r} : Replica).Settled b.commit := by
    intro m hm b hb hle
    by_cases hfired : apiKeyNamespace ∈ (w.poller.pollOnce poll.rows).2
    · rw [if_pos hfired] at hr
      rw [Settled,← hr]
      exact fresh_invalidated h.behind Target.all b.commit
    · exact hturned.settled h (h.passed b hb) (pollFinish_settled h hpoll hm hfired hb hle)
  exact {h.turned hturned with
    known_le := by
      intro m hm
      rw [hknown] at hm
      cases hrow : poll.rows.get? apiKeyNamespace with
      | none => rw [hrow] at hm; exact h.known_le m hm
      | some n =>
        rw [hrow] at hm
        exact h.read_le poll hpoll m (hrow.trans hm)
    known := by
      intro m hm b hb hle
      rw [hknown] at hm
      cases hrow : poll.rows.get? apiKeyNamespace with
      | none => rw [hrow] at hm; exact (h.turned hturned).known m hm b hb hle
      | some n =>
        rw [hrow] at hm
        exact hsettled m (hrow.trans hm) b hb hle
    unread := nofun
    read_le := nofun
    read := nofun
    first := nofun
    reached := by
      intro c hc
      rcases List.mem_append.1 hc with hc | hc
      · obtain ⟨m,b,hm,hb,rfl,hle⟩ := h.read poll hpoll c hc
        exact ⟨(h.turned hturned).passed b hb,hsettled m hm b hb hle⟩
      · exact (h.turned hturned).reached c hc}

theorem Inv.step {e : Event} (h : w.Inv) (hnoticed : w.Noticed e) (hstep : w.step e = some u) :
    u.Inv := by
  cases e with
  | move a =>
    obtain ⟨r,hr,rfl⟩ := Option.map_eq_some_iff.1 hstep
    exact h.turned (.inl (move_effect apiKeys hr))
  | commit id =>
    rw [Replica.step] at hstep
    split at hstep
    · cases hstep
    · cases hstep; exact h.commit id
  | bump id =>
    rw [Replica.step] at hstep
    split at hstep
    · cases hstep
    · next c hc =>
        cases hstep
        exact h.bump hc fun hi hp => hnoticed hi (by rw [hp]; rfl) c hc
  | bumpOther ns =>
    rw [Replica.step] at hstep
    split_ifs at hstep with hns
    cases hstep
    exact h.bumpOther hns
  | pollRead =>
    rw [Replica.step] at hstep
    split at hstep
    · cases hstep
    · next hnone => cases hstep; exact h.pollRead hnone
  | pollFinish =>
    rw [Replica.step] at hstep
    split at hstep
    · cases hstep
    · next poll hpoll => cases hstep; exact h.pollFinish hpoll

/-- What the cache returns was read after every commit that a finished poll has
reached. -/
def Invalidated (w : Replica) : Prop :=
  ∀ now keyHash v, w.reader.cache.get now keyHash = some v →
    ∀ c ∈ w.reached, ∀ t ∈ v.reads, c < t

theorem polls_reach_cache (cache : KeyCache) (versions : Dict String ℕ) (es : List Event)
    (w : Replica) (hrun : Run (restrict (Steps step) Noticed) (start cache versions) es w) :
    w.Invalidated := by
  have hinv := hrun.invariant (I := Inv) (fun _ _ _ h hs => h.step hs.1 hs.2)
    (inv_start)
  intro now keyHash v hit c hc
  exact (hinv.reached c hc).2.entries trivial (apiKeys.holds_get? (m := ⟨now,0⟩) hit)

def load (id : ℕ) : List Event :=
  [.move (.get id "k" noon),.move (.takeVersion id),.move (.read id),
    .move (.store id someKey noon)]

def write (id : ℕ) : List Event := [.commit id,.bump id]

def poll : List Event := [.pollRead,.pollFinish]

theorem polled_first_reaches : ∃ w, Run (restrict (Steps step) Noticed) (start emptyCache empty)
        (poll++load 0++write 0++poll++load 1) w ∧
      (w.reader.cache.get 1 "k").map Loaded.reads = some [12] ∧ w.reached = [6] ∧
      w.Invalidated :=
  exists_run_with (p := fun w => (w.reader.cache.get 1 "k").map Loaded.reads = some [12] ∧
    w.reached = [6]) (fun w hrun h => ⟨h.1,h.2,polls_reach_cache emptyCache empty _ w hrun⟩)
    (by decide +kernel)

/-- The first poll notes the version of a bump it should have called back for. -/
theorem first_poll_misses_bump :
    ∃ w, Run (Steps step) (start emptyCache empty) (load 0++write 0++poll) w ∧
      ¬w.Invalidated := by
  refine exists_steps_with (p := fun w =>
    (w.reader.cache.get 1 "k").map Loaded.reads = some [2] ∧ w.reached = [4]) ?_ (by decide +kernel)
  rintro w - ⟨hreads,hreached⟩ h
  obtain ⟨v,hit,hv⟩ := Option.map_eq_some_iff.1 hreads
  have hlt := h 1 "k" v hit 4 (by rw [hreached]; exact List.mem_cons_self) 2
    (by rw [hv]; exact List.mem_cons_self)
  exact absurd hlt (by decide)

end Replica

end CodexLb.InvalidationPoller
