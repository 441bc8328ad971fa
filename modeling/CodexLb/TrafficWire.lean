import CodexLb.TrafficSession

/-!
# Who is answered on a socket

An abstract view of a bridge session: of a request only its response id, whether
it holds the response-create gate and whether its client has left; of a socket
the requests that wrote on it and the responses created there. `Ordered` says
that the guesses of the reader cannot go wrong: an unresolved pending request
holds the gate, the gate has one holder, and an unanswered message on the socket
that is read belongs to a pending request without a response.
-/
namespace CodexLb.Traffic

/-- A socket: who wrote on it, in order, and the ids created on it. -/
structure Line where
  sent : List RequestId
  responses : List String
  deriving DecidableEq, Repr

def Line.unanswered (l : Line) : List RequestId := l.sent.drop l.responses.length

/-- `ids` is `none` where there is no request, and `some none` before its response. -/
structure Wire where
  ids : RequestId → Option (Option String)
  holds : RequestId → Bool
  draining : RequestId → Bool
  pending : List RequestId
  gate : ℕ
  lines : List Line
  reader : Reader
  submits : ℕ → Option SubmitPhase
  deliveries : List Delivery

def RequestId.submit : RequestId → ℕ
  | .client i | .warmup i => i

/-- The requests of submit `i` that are not queued yet. -/
def SubmitPhase.unqueued (i : ℕ) : SubmitPhase → List RequestId
  | .recovering | .checked | .entering | .listening | .warming (.sending _ _) => [.client i]
  | .sending .waitingGate | .sending .admitting => [.client i]
  | .warming .waitingGate | .warming .admitting => [.client i,.warmup i]
  | _ => []

def SubmitPhase.admitting (i : ℕ) : SubmitPhase → Option RequestId
  | .sending .admitting => some (.client i)
  | .warming .admitting => some (.warmup i)
  | _ => none

variable {i : ℕ} {p : SubmitPhase} {q : RequestId}

theorem SubmitPhase.unqueued_submit (h : q ∈ p.unqueued i) : q.submit = i := by
  unfold SubmitPhase.unqueued at h
  split at h
  all_goals simp at h
  all_goals first | (subst h; rfl) | (rcases h with rfl|rfl <;> rfl)

theorem SubmitPhase.admitting_unqueued (h : p.admitting i = some q) : q ∈ p.unqueued i := by
  unfold SubmitPhase.admitting at h
  split at h
  all_goals cases h
  all_goals simp [SubmitPhase.unqueued]

def Reader.reads : Reader → Bool
  | .receiving | .handling _ | .resending _ _ _ _ => true
  | .reconnecting _ _ | .stopped => false

def Reader.interrupted : Reader → Option Handling
  | .reconnecting _ h | .resending _ _ _ h => h
  | _ => none

/-- The handling is about requests that have their response, and an event about
the one that sent the message. -/
structure Handling.Fits (ids : RequestId → Option (Option String))
    (sender : Origin → Option RequestId) (h : Handling) : Prop where
  follow : h.follow ≠ .retry
  matched : ∀ q, h.matched = some q → ∃ x, ids q = some (some x)
  terminal : ∀ q, h.terminal = some q → ∃ x, ids q = some (some x)
  grouped : ∀ q ∈ h.grouped, ∃ x, ids q = some (some x)
  origin : ∀ o, h.origin = some o → ∀ q, h.matched = some q ∨ h.terminal = some q →
    sender o = some q

theorem Handling.Fits.mono {f f' : RequestId → Option (Option String)}
    {g g' : Origin → Option RequestId} {h : Handling} (hfits : h.Fits f g)
    (hf : ∀ q x, f q = some (some x) → f' q = some (some x))
    (hg : ∀ o q, g o = some q → g' o = some q) : h.Fits f' g' where
  follow := hfits.follow
  matched q hq := (hfits.matched q hq).imp (hf q)
  terminal q hq := (hfits.terminal q hq).imp (hf q)
  grouped q hq := (hfits.grouped q hq).imp (hf q)
  origin o ho q hq := hg o q (hfits.origin o ho q hq)

namespace Wire
variable (w : Wire) (q : RequestId)

def Resolved : Prop := ∃ x, w.ids q = some (some x)

def current : ℕ := w.lines.length-1

def unanswered : List RequestId := (w.lines[w.current]?).elim [] Line.unanswered

def sender (o : Origin) : Option RequestId := (w.lines[o.socket]?).bind fun l => l.sent[o.index]?

structure Ordered : Prop where
  exclusive : ∀ p q, w.holds p = true → w.holds q = true → p = q
  taken : ∀ q, w.holds q = true → w.gate = 0
  permit : w.gate ≤ 1
  nodup : w.pending.Nodup
  known : ∀ q ∈ w.pending, w.ids q ≠ none
  queued : ∀ q ∈ w.pending, w.ids q = some none → w.holds q = true
  drains : ∀ q, w.draining q = true → w.ids q ≠ some none
  waiting : ∀ i p, w.submits i = some p → ∀ q ∈ p.unqueued i,
    q ∉ w.pending ∧ w.ids q = some none
  admitted : ∀ i p q, w.submits i = some p → p.admitting i = some q → w.holds q = true
  named : ∀ q x, w.ids q = some (some x) → ∃ l ∈ w.lines, x ∈ l.responses
  distinct : ∀ p q x, w.ids p = some (some x) → w.ids q = some (some x) → p = q
  counted : ∀ l ∈ w.lines, l.responses.length ≤ l.sent.length
  answered : ∀ (u n : ℕ) l x q, w.lines[u]? = some l → l.responses[n]? = some x →
    l.sent[n]? = some q → w.ids q = some (some x)
  opened : w.reader.reads = true → w.unanswered.length ≤ 1 ∧
    ∀ q ∈ w.unanswered, q ∈ w.pending ∧ w.ids q = some none
  handles : ∀ h, w.reader = .handling h → h.Fits w.ids w.sender
  uninterrupted : w.reader.interrupted = none
  delivered : ∀ d ∈ w.deliveries, ∀ o, d.origin = some o → w.sender o = some d.request

def phase (i : ℕ) (p : SubmitPhase) : Wire :=
  {w with submits := Function.update w.submits i (some p)}

def read (r : Reader) : Wire := {w with reader := r}

def setPending (qs : List RequestId) : Wire := {w with pending := qs}

def enqueue : Wire := {w with pending := w.pending++[q]}

def release : Wire :=
  {w with
    holds := Function.update w.holds q false
    gate := if w.holds q then w.gate+1 else w.gate}

def acquire : Wire :=
  {w with holds := Function.update w.holds q true,gate := w.gate-1}

def create : Wire :=
  {w with
    ids := Function.update w.ids q (some none)
    holds := Function.update w.holds q false
    draining := Function.update w.draining q false}

def drain : Wire := {w with draining := Function.update w.draining q true}

def deliver (d : Delivery) : Wire := {w with deliveries := w.deliveries++[d]}

def reopen : Wire := {w with lines := w.lines++[⟨[],[]⟩]}

def write (u : ℕ) (q : RequestId) : Wire :=
  {w with lines := w.lines.modify u fun l => {l with sent := l.sent++[q]}}

/-- A response is created on the current socket, and the request gets its id. -/
def respond (x : String) (q : RequestId) : Wire :=
  {w with
    lines := w.lines.modify w.current fun l => {l with responses := l.responses++[x]}
    ids := Function.update w.ids q (some (some x))}

variable {w} {p q : RequestId}

theorem ids_create_of_some {y : Option String} (hq : w.ids q = none) (hp : w.ids p = some y) :
    (w.create q).ids p = some y := by
  have hne : p ≠ q := by
    rintro rfl
    rw [hq] at hp
    cases hp
  simp only [create,Function.update_of_ne hne,hp]

/-- One line of the sockets after an update of line `u`. -/
theorem getElem?_modify_line (lines : List Line) (u v : ℕ) (f : Line → Line) :
    (lines.modify u f)[v]? = if u = v then (lines[v]?).map f else lines[v]? := by
  rw [List.getElem?_modify]
  split_ifs <;> simp

variable {u : ℕ} {lines : List Line} {f : Line → Line}

theorem line_of_modify {v : ℕ} {l : Line} (h : (lines.modify u f)[v]? = some l) :
    ∃ k, lines[v]? = some k ∧ (u ≠ v ∧ l = k ∨ u = v ∧ l = f k) := by
  rw [getElem?_modify_line] at h
  split_ifs at h with hu
  · obtain ⟨k,hk,rfl⟩ := Option.map_eq_some_iff.mp h
    exact ⟨k,hk,.inr ⟨hu,rfl⟩⟩
  · exact ⟨l,h,.inl ⟨hu,rfl⟩⟩

variable {x : String}

/-- An update of a line that keeps its responses keeps them among all. -/
theorem mem_responses_modify (hf : ∀ k : Line, x ∈ k.responses → x ∈ (f k).responses)
    (h : ∃ l ∈ lines, x ∈ l.responses) : ∃ l ∈ lines.modify u f, x ∈ l.responses := by
  obtain ⟨l,hl,hx⟩ := h
  obtain ⟨v,hv⟩ := List.mem_iff_getElem?.mp hl
  by_cases hu : u = v
  · exact ⟨f l,List.mem_iff_getElem?.mpr ⟨v,by rw [getElem?_modify_line,if_pos hu,hv]; rfl⟩,hf l hx⟩
  · exact ⟨l,List.mem_iff_getElem?.mpr ⟨v,by rw [getElem?_modify_line,if_neg hu,hv]⟩,hx⟩

variable {o : Origin}

theorem sender_write (h : w.sender o = some p) : (w.write u q).sender o = some p := by
  obtain ⟨l,hl,hp⟩ := Option.bind_eq_some_iff.mp h
  have hlt := (List.getElem?_eq_some_iff.mp hp).1
  simp only [sender,write,getElem?_modify_line,hl]
  split_ifs
  · simp only [Option.map_some,Option.bind_some,List.getElem?_append_left hlt,hp]
  · exact hp

theorem sender_respond (o : Origin) : (w.respond x q).sender o = w.sender o := by
  simp only [sender,respond,getElem?_modify_line]
  split_ifs
  · cases w.lines[o.socket]? <;> rfl
  · rfl

theorem sender_reopen (h : w.sender o = some p) : w.reopen.sender o = some p := by
  obtain ⟨l,hl,hp⟩ := Option.bind_eq_some_iff.mp h
  have hlt := (List.getElem?_eq_some_iff.mp hl).1
  simp only [sender,reopen,List.getElem?_append_left hlt,hl,Option.bind_some,hp]

theorem current_write : (w.write u q).current = w.current := by
  simp only [current,write,List.length_modify]

theorem current_respond (x : String) (q : RequestId) : (w.respond x q).current = w.current := by
  simp only [current,respond,List.length_modify]

theorem unanswered_write_other (q : RequestId) (hu : u ≠ w.current) :
    (w.write u q).unanswered = w.unanswered := by
  rw [unanswered,current_write,write,getElem?_modify_line,if_neg hu,unanswered]

theorem unanswered_write (q : RequestId) (hcount : ∀ l ∈ w.lines, l.responses.length ≤ l.sent.length) :
    ∀ p ∈ (w.write w.current q).unanswered, p ∈ w.unanswered++[q] := by
  intro p hp
  rw [unanswered,current_write,write,getElem?_modify_line,if_pos rfl] at hp
  rw [unanswered]
  cases hl : w.lines[w.current]? with
  | none =>
    rw [hl] at hp
    cases hp
  | some l =>
    have hle := hcount l (List.mem_of_getElem? hl)
    simpa only [hl,Option.map_some,Option.elim_some,Line.unanswered,
      List.drop_append_of_le_length hle] using hp

theorem length_unanswered_write (q : RequestId)
    (hcount : ∀ l ∈ w.lines, l.responses.length ≤ l.sent.length) :
    (w.write w.current q).unanswered.length ≤ w.unanswered.length+1 := by
  rw [unanswered,current_write,write,getElem?_modify_line,if_pos rfl,unanswered]
  cases hl : w.lines[w.current]? with
  | none => simp
  | some l =>
    have hle := hcount l (List.mem_of_getElem? hl)
    simp only [Option.map_some,Option.elim_some,Line.unanswered,
      List.drop_append_of_le_length hle,List.length_append,List.length_singleton,le_refl]

theorem unanswered_reopen : w.reopen.unanswered = [] := by
  simp [unanswered,current,reopen,Line.unanswered]

end Wire

end CodexLb.Traffic
