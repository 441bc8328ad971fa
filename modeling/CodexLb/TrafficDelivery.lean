import CodexLb.TrafficReader

/-!
# Events go to the request that sent the message

`Answers` is what is assumed of the upstream: on one socket it answers the
messages in the order they were sent, with one created response each and ids
that do not repeat, and every later event belongs to a created response or to
none. `Orderly` is what the bridge does not ensure by itself: that no request
leaves the queue or the gate while its message is unanswered, that no message is
written for a request that has already left, and that an event that is not
matched by its id meets only requests it may be given to.
-/
namespace CodexLb.Traffic

section
variable {F : Type}

def SubmitPhase.request (i : ℕ) : SubmitPhase → RequestId
  | .warming _ | .listening => .warmup i
  | _ => .client i

def SubmitPhase.socket : SubmitPhase → Option ℕ
  | .sending (.sending u _) | .warming (.sending u _) | .resending u _ _ => some u
  | _ => none

/-- A cancellation here takes the request out of the queue. -/
def SubmitPhase.cleansUp : SubmitPhase → Bool
  | .sending _ | .warming _ | .listening => true
  | _ => false

def SubmitPhase.sendsOwn : SubmitPhase → Bool
  | .sending _ => true
  | _ => false

variable (s : Session F)

/-- A failed send of the request would be tried again on a fresh upstream. -/
def Session.resends (i : ℕ) : Bool :=
  (s.requests.get? (.client i)).any fun r => (retryText r r.requestText).isSome && mayReplay r

/-- The request has no unanswered message on the socket that is read. -/
def Settled (q : RequestId) : Prop :=
  s.reader.reads = true → q ∉ s.wire.unanswered

/-- A message on the socket that is read is for a pending request without a
response and without another message there. -/
def Writable (u : ℕ) (q : RequestId) : Prop :=
  u = s.upstream → s.reader.reads = true →
    q ∈ s.pending ∧ s.wire.ids q = some none ∧ q ∉ s.wire.unanswered

/-- What the upstream may send about the message `o`. -/
def AnswersFrom (ev : UpstreamEvent) (o : Origin) : Prop :=
  o.socket = s.upstream ∧ ∃ k ∈ s.sockets[o.socket]?, o.index < k.sent.length ∧
    if ev.type = .created then
      o.index = k.responses.length ∧ ∃ x ∈ ev.responseId, ∀ l ∈ s.sockets, x ∉ l.responses
    else ∃ x ∈ k.responses[o.index]?, ∀ y ∈ ev.responseId, y = x

def Answers : Event F → Prop
  | .receive ev none => ev.type ≠ .created ∧ ev.responseId = none
  | .receive ev (some o) => AnswersFrom s ev o
  | _ => True

/-- An event of no response finds no request that waits for one; an event without
an id finds only its own request; a terminal event finds its request pending. -/
def Attributable (ev : UpstreamEvent) : Option Origin → Prop
  | none => ∀ q ∈ s.pending, s.wire.ids q ≠ some none
  | some o =>
    (ev.responseId = none → ∀ q ∈ s.pending, s.wire.sender o = some q) ∧
    (ev.responseId ≠ none → ev.type.terminal = true → ∃ q ∈ s.pending, s.wire.sender o = some q ∧
      ((ev.previousResponseNotFound || ev.missingToolOutput) = true → s.wire.draining q = false))

def Orderly : Event F → Prop
  | .receive ev origin => Attributable s ev origin
  | .write i => ∀ p ∈ s.submits.get? i, ∀ u ∈ p.socket, Writable s u (p.request i)
  | .sendFailed i => ∀ p ∈ s.submits.get? i,
      Settled s (p.request i) ∨ (p.sendsOwn && s.resends i) = true
  | .retry i attempts => s.connect attempts = none → Settled s (.client i)
  | .cancel i => ∀ p ∈ s.submits.get? i, p.cleansUp = true → Settled s (p.request i)
  | .detach i => .client i ∈ s.pending → s.wire.ids (.client i) ≠ some none
  | .readerWrite => match s.reader with
      | .resending q u _ _ => Writable s u q
      | _ => True
  | .failPending => s.reader.reads = true → s.wire.unanswered = []
  | _ => True

instance (s : Session F) (q : RequestId) : Decidable (Settled s q) := by
  unfold Settled; infer_instance

instance (s : Session F) (u : ℕ) (q : RequestId) : Decidable (Writable s u q) := by
  unfold Writable; infer_instance

instance (s : Session F) (ev : UpstreamEvent) (o : Origin) : Decidable (AnswersFrom s ev o) := by
  unfold AnswersFrom; infer_instance

instance (s : Session F) (e : Event F) : Decidable (Answers s e) := by
  unfold Answers; split <;> infer_instance

instance (s : Session F) (ev : UpstreamEvent) (o : Option Origin) :
    Decidable (Attributable s ev o) := by
  unfold Attributable; split <;> infer_instance

instance (s : Session F) (e : Event F) : Decidable (Orderly s e) := by
  unfold Orderly
  split
  all_goals first | infer_instance | (split <;> infer_instance)

end

namespace Session
variable {F : Type} {s : Session F}

theorem ordered_receive {ev : UpstreamEvent} {origin : Option Origin} (h : s.wire.Ordered)
    (hr : s.wire.reader.reads = true) (hans : Answers s (.receive ev origin))
    (hatt : Attributable s ev origin) : (s.receive ev origin).wire.Ordered := by
  have hresolved : ∀ q ∈ s.pending, s.wire.ids q ≠ some none → s.wire.Resolved q := by
    intro q hq hne
    have hknown := h.known q hq
    cases hid : s.wire.ids q with
    | none => exact absurd hid hknown
    | some y =>
      cases y with
      | none => exact absurd hid hne
      | some x => exact ⟨x,hid⟩
  cases origin with
  | none =>
    refine ordered_receive_attributed h hr hans.1 (.anonymous hans.2 fun q hq => ⟨?_,?_⟩)
    · exact hresolved q hq (hatt q hq)
    · exact nofun
  | some o =>
    obtain ⟨ho,k,hk,hlt,hcase⟩ := hans
    have hline : s.wire.lines[o.socket]? = some k.line := by
      simp only [wire,List.getElem?_map,Option.mem_def.mp hk,Option.map_some]
    obtain ⟨q,hq⟩ : ∃ q, k.line.sent[o.index]? = some q := by
      simp only [Socket.line,List.getElem?_map,List.getElem?_eq_getElem hlt,Option.map_some]
      exact ⟨_,rfl⟩
    have hsender : s.wire.sender o = some q := by rw [Wire.sender,hline]; exact hq
    by_cases hev : ev.type = .created
    · rw [if_pos hev] at hcase
      obtain ⟨hidx,x,hx,hfresh⟩ := hcase
      refine ordered_receive_created h hr hev hx ho hline hidx hq ?_
      intro l hl
      obtain ⟨k',hk',rfl⟩ := List.mem_map.mp hl
      exact hfresh k' hk'
    · rw [if_neg hev] at hcase
      obtain ⟨x,hx,hid⟩ := hcase
      have hans : s.wire.ids q = some (some x) := h.answered _ _ _ x q hline hx hq
      have howns : s.wire.Owns (some o) q := ⟨⟨x,hans⟩,by rintro _ ⟨rfl⟩; exact hsender⟩
      refine ordered_receive_attributed h hr hev ?_
      cases hrid : ev.responseId with
      | none =>
        refine .anonymous hrid fun p hp => ?_
        have hp' := hatt.1 hrid p hp
        rw [hsender] at hp'
        cases hp'
        exact howns
      | some y =>
        have hyx := hid y hrid
        subst hyx
        refine .named hrid (fun p hp => ?_) fun hterm => ?_
        · rw [h.distinct p q y hp hans]
          exact howns
        · obtain ⟨p,hp,hps,hdrain⟩ := hatt.2 (by rw [hrid]; simp) hterm
          rw [hsender] at hps
          cases hps
          exact ⟨q,hp,hans,hdrain⟩

/-- Gates that are given back and events that are put leave the rest alone. -/
structure SameLines (s t : Session F) : Prop where
  ids : t.wire.ids = s.wire.ids
  lines : t.wire.lines = s.wire.lines
  reader : t.reader = s.reader

theorem SameLines.refl (s : Session F) : SameLines s s := ⟨rfl,rfl,rfl⟩

variable {t : Session F}

theorem SameLines.trans {u : Session F} (h : SameLines s t) (k : SameLines t u) :
    SameLines s u := ⟨k.ids.trans h.ids,k.lines.trans h.lines,k.reader.trans h.reader⟩

variable {q : RequestId}

theorem sameLines_releaseGate (s : Session F) : SameLines s (s.releaseGate q) := by
  have h := wire_releaseGate s q
  exact ⟨by rw [h]; rfl,by rw [h]; rfl,congrArg Wire.reader h⟩

theorem sameLines_put (s : Session F) {o : Option Origin} : SameLines s (s.put q o) := by
  have h := put_frame s q o
  exact ⟨by rw [h],by rw [h],congrArg Wire.reader h⟩

theorem sameLines_failEach {qs : List RequestId} (s : Session F) :
    SameLines s (qs.foldl (fun t q => (t.releaseGate q).put q none) s) := by
  induction qs generalizing s with
  | nil => exact .refl s
  | cons q qs ih =>
    exact ((sameLines_releaseGate s).trans (sameLines_put _)).trans (ih _)

theorem SameLines.sender (h : SameLines s t) : t.wire.sender = s.wire.sender := by
  funext o
  rw [Wire.sender,h.lines,Wire.sender]

theorem ordered_releaseGate (h : s.wire.Ordered) (hq : s.wire.Resolved q) :
    (s.releaseGate q).wire.Ordered := by
  rw [wire_releaseGate]
  exact h.release_resolved hq

variable {k : Handling}

section
variable (h : s.wire.Ordered)
include h

theorem ordered_openGate (hm : ∀ q, k.matched = some q → s.wire.Resolved q) :
    (s.openGate k).wire.Ordered ∧ SameLines s (s.openGate k) := by
  unfold openGate
  split
  · exact ⟨ordered_releaseGate h (hm _ ‹_›),sameLines_releaseGate ..⟩
  · exact ⟨h,.refl s⟩

theorem ordered_putTo {o : Option Origin} {m : Option RequestId}
    (ho : ∀ x, o = some x → ∀ q, m = some q → s.wire.sender x = some q) :
    (s.putTo o m).wire.Ordered ∧ SameLines s (s.putTo o m) := by
  cases m with
  | none => exact ⟨h,.refl s⟩
  | some q => exact ⟨ordered_put h fun x hx => ho x hx q rfl,sameLines_put ..⟩

theorem ordered_putEvent
    (ho : ∀ o, k.origin = some o → ∀ q, k.matched = some q ∨ k.terminal = some q → s.wire.sender
      o = some q) : (s.putEvent k).wire.Ordered ∧ SameLines s (s.putEvent k) := by
  obtain ⟨h₁,l₁⟩ := ordered_putTo h fun x hx q hq => ho x hx q (.inl hq)
  unfold putEvent
  split_ifs
  · exact ⟨h₁,l₁⟩
  · obtain ⟨h₂,l₂⟩ := ordered_putTo (o := k.origin) (m := k.terminal) h₁ fun x hx q hq => by
      rw [l₁.sender]
      exact ho x hx q (.inr hq)
    exact ⟨h₂,l₁.trans l₂⟩

theorem ordered_finalize (ht : ∀ q, k.terminal = some q → s.wire.Resolved q) :
    (s.finalize k).wire.Ordered ∧ SameLines s (s.finalize k) := by
  unfold finalize
  split
  · exact ⟨ordered_releaseGate h (ht _ ‹_›),sameLines_releaseGate ..⟩
  · exact ⟨h,.refl s⟩

theorem ordered_deliver (hr : s.wire.reader.reads = true) (hk : k.Fits s.wire.ids s.wire.sender) :
    (s.deliver k).wire.Ordered := by
  obtain ⟨h₁,l₁⟩ := ordered_openGate h hk.matched
  obtain ⟨h₂,l₂⟩ := ordered_putEvent (k := k) h₁ (by rw [l₁.sender]; exact hk.origin)
  have l₁₂ := l₁.trans l₂
  obtain ⟨h₃,l₃⟩ := ordered_finalize (k := k) h₂ (by
    unfold Wire.Resolved
    rw [l₁₂.ids]
    exact hk.terminal)
  refine ordered_afterMessage h₃ ?_
  change (((s.openGate k).putEvent k).finalize k).reader.reads = true
  rw [(l₁₂.trans l₃).reader]
  exact hr

theorem ordered_deliverGroup (hr : s.wire.reader.reads = true)
    (hk : k.Fits s.wire.ids s.wire.sender) : (s.deliverGroup k).wire.Ordered := by
  refine ordered_afterMessage (ordered_failEach h ?_ ?_) ?_
  · intro q hq _ hn
    obtain ⟨x,hx⟩ := hk.grouped q hq
    rw [hn] at hx
    cases hx
  · intro q hq i p hp hadm
    obtain ⟨x,hx⟩ := hk.grouped q hq
    rw [(h.waiting i p hp q (p.admitting_unqueued hadm)).2] at hx
    cases hx
  · change (k.grouped.foldl (fun t q => (t.releaseGate q).put q none) s).reader.reads = true
    rw [(sameLines_failEach s).reader]
    exact hr

theorem ordered_finishHandling (hk : s.reader = .handling k) :
    (s.finishHandling k).wire.Ordered := by
  have hfits := h.handles k hk
  have hr : s.wire.reader.reads = true := by
    change s.reader.reads = true
    rw [hk]
    rfl
  unfold finishHandling
  split
  · exact ordered_deliverGroup h hr hfits
  · exact absurd ‹_› hfits.follow
  · exact ordered_deliver h hr hfits

theorem ordered_lost : s.lost.wire.Ordered := by
  unfold lost
  split
  · rename_i q _
    have hread : (s.wire.read (.reconnecting q none)).Ordered :=
      h.read (fun hr => by cases hr) (fun _ hk => by cases hk) rfl
    rw [← wire_countReplay s q] at hread
    exact hread
  · exact ordered_failAll h

end

end Session

end CodexLb.Traffic
