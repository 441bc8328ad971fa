import CodexLb.WebsocketKept

/-!
# The steps of the upstream reader

Every request an event is matched with is pending, and so a step of the reader
keeps what it has, parks the holder of the gate, ends, or crashes.
-/
namespace CodexLb.WebsocketProxy
open Traffic

namespace Connection
variable {F : Type} {setup : Setup F} {s t : Connection F} {ev : UpstreamEvent} {q : RequestId}

theorem popTerminalRequest_mem {fallback : Option RequestId}
    (h : popTerminalRequest s.pendingStates ev fallback = some q) : q ∈ s.pending := by
  have hdrawn : Drawn (s.pendingStates.map Prod.fst)
      (popTerminalRequest s.pendingStates ev fallback) := by
    have hkept := @fallback_drawn F s.pendingStates fallback
    unfold popTerminalRequest
    cases ev.responseId with
    | none => exact hkept.orElse matchAnonymousEvent_drawn
    | some x =>
      refine .orElse (findByResponseId_drawn x) (.orElse hkept (.orElse (.ite .none ?_)
        (.ite ?_ .none)))
      · exact (Drawn.single List.filter_sublist.subset).keys
      · exact (Drawn.single matchingForPreviousResponseError_sublist.subset).keys
  exact (s.book.table.keys_filterMap_get?_sublist s.pending).subset (hdrawn q h)

theorem errorGroup_subset (ev : UpstreamEvent) : s.errorGroup ev ⊆ s.pending := by
  unfold errorGroup
  simp only []
  split_ifs
  · exact List.Subset.refl _
  · unfold continuityGroup
    refine List.Subset.trans (List.map_subset _ ?_)
      (s.book.table.keys_filterMap_get?_sublist s.pending).subset
    by_cases hcont : (ev.previousResponseNotFound || ev.missingToolOutput) = true
    · rw [if_pos hcont]
      split_ifs
      · exact matchingForMissingToolOutput_sublist.subset
      · exact matchingForPreviousResponseError_sublist.subset
    · rw [if_neg hcont]
      split_ifs
      · exact matchingForMissingToolOutput_sublist.subset
      · exact List.nil_subset _

/-- The reader keeps what it has or, for a cause, parks the holder of the gate. -/
inductive Reads (cause : Prop) (s t : Connection F) : Prop
  | keeps (h : Kept s.hand s t)
  | parks (hc : cause) (q : RequestId) (hq : q ∈ s.pending) (h : Parks q s t)

theorem reads_of_kept {cause : Prop} (hhand : s.hand = []) (h : Kept [] s t) : Reads cause s t :=
  .keeps (by rw [hhand]; exact h)

section Receiving
variable {u : Upstream} (hu : s.upstream = some u) (hhand : s.hand = [])
include hu hhand

theorem reads_conclude {ps : List RequestId} (hq : q ∈ s.pending)
    (hps : ∀ p, p ∈ s.pending ↔ p ∈ ps ∨ p ∈ [q]) (ev : UpstreamEvent) :
    Reads (AllowsReplay ev) s ({s with pending := ps}.conclude q ev) := by
  rcases conclude_cases (s := {s with pending := ps}) hu q ev with h | h
  · exact reads_of_kept hhand (h.of_pending hps)
  · exact .parks h.1 q hq ⟨h.2.loop,h.2.held,h.2.holder,h.2.pending,h.2.hand⟩

theorem reads_receiveTerminal (ev : UpstreamEvent) (matched : Option RequestId) :
    Reads (AllowsReplay ev) s (s.receiveTerminal ev matched) := by
  unfold receiveTerminal
  split
  · rename_i q hpop
    have hq := popTerminalRequest_mem hpop
    refine reads_conclude hu hhand hq (fun p => ?_) ev
    by_cases hp : p = q
    · simp [hp,hq]
    · simp [hp,List.mem_erase_of_ne hp]
  · have hsub := s.errorGroup_subset ev
    have hsplit : ∀ p, p ∈ s.pending ↔ p ∈ s.pending.filter (· ∉ s.errorGroup ev) ∨
        p ∈ s.errorGroup ev := by
      intro p
      rw [List.mem_filter,decide_eq_true_eq]
      constructor
      · intro hp
        by_cases hg : p ∈ s.errorGroup ev
        · exact .inr hg
        · exact .inl ⟨hp,hg⟩
      · rintro (h | h)
        · exact h.1
        · exact hsub h
    simp only []
    split
    · rename_i hgroup
      have hkept := kept_unclaimed
        (s := {s with pending := s.pending.filter (· ∉ s.errorGroup ev)}) hu ev
      exact reads_of_kept hhand (hkept.of_pending (hgroup ▸ hsplit))
    · rename_i q hgroup
      have hq : q ∈ s.pending := hsub (by rw [hgroup]; exact List.mem_singleton_self q)
      exact reads_conclude hu hhand hq (hgroup ▸ hsplit) ev
    · rename_i q qs _ hgroup
      have hup := upstream_requestReconnect
        (s := {s with pending := s.pending.filter (· ∉ s.errorGroup ev)}) hu
      have hkept := kept_requestReconnect
        (s := {s with pending := s.pending.filter (· ∉ s.errorGroup ev)})
        (kept_release_read (r := .busy qs (.relay false)) hup (by simp) q)
      exact reads_of_kept hhand (hkept.of_pending (hgroup ▸ hsplit))

end Receiving

theorem reads_of_book {cause : Prop} {b : Book F} (hb : b.holder = s.book.holder)
    (h : Reads cause {s with book := b} t) : Reads cause s t := by
  cases h with
  | keeps h => exact .keeps (h.of_book hb)
  | parks hc q hq h => exact .parks hc q hq ⟨h.loop,hb ▸ h.held,h.holder,h.pending,h.hand⟩

variable {u : Upstream}

theorem reads_claimed (hu : s.upstream = some u) (hhand : s.hand = [])
    {matched : Option RequestId} (hm : ∀ q, matched = some q → q ∈ s.pending) :
    Reads (AllowsReplay ev) s (s.claimed ev matched) := by
  cases matched with
  | none =>
    unfold claimed
    dsimp only
    split_ifs
    · exact reads_of_kept hhand (kept_afterMessage hu)
    · exact reads_receiveTerminal hu hhand ev none
    · exact reads_of_kept hhand (kept_unclaimed hu ev)
  | some q =>
    unfold claimed
    split_ifs
    · exact reads_of_kept hhand (kept_afterMessage hu)
    · exact reads_receiveTerminal hu hhand ev (some q)
    · have hkept := kept_unclaimed (s := s.release q) hu ev
      exact reads_of_kept hhand (hkept.of_release.absorb (hm q rfl))
    · exact reads_of_kept hhand (kept_unclaimed hu ev)

theorem reads_process (hu : s.upstream = some u) (hhand : s.hand = []) :
    Reads (AllowsReplay ev) s (s.process ev) := by
  have hm : ∀ q, matchEvent s.pendingStates ev = some q → q ∈ s.pending :=
    fun q hq => (s.book.table.keys_filterMap_get?_sublist s.pending).subset (matchEvent_drawn q hq)
  unfold process
  cases hmatch : matchEvent s.pendingStates ev with
  | none => exact reads_claimed hu hhand (by simp)
  | some q =>
    rw [hmatch] at hm
    exact reads_of_book (s.book.holder_update q _ _)
      (reads_claimed (s := s.mark ev (some q)) hu hhand hm)

/-- The loop finds a request to replay only in the holder of the gate, alone in
the queue. -/
theorem replayable_spec (h : s.replayable = some q) : s.pending = [q] ∧ s.book.holder = some q := by
  unfold replayable at h
  split at h
  · rename_i p hpending
    split at h
    · rename_i r hr
      split_ifs at h with htest
      cases h
      simp only [Bool.and_eq_true] at htest
      exact ⟨hpending,holder_of_awaiting hr htest.1.1.2⟩
    · cases h
  · cases h

theorem kept_failPending (hu : s.upstream = some u) {penalized : Bool} {next : Next} :
    Kept [] s (s.failPending penalized next) :=
  (kept_fail (s := {s with pending := []}) hu s.pending penalized next).of_pending (by simp)

/-- The event may make the reader hand a request back for a replay. -/
def Replays (s : Connection F) : ReaderEvent → Prop
  | .received ev => AllowsReplay ev
  | .closed _ => s.replayable ≠ none
  | _ => False

/-- The steps of the reader: it keeps what it has, parks the holder, ends, or
crashes and loses what it has in its hand. -/
inductive Moves (s : Connection F) (e : ReaderEvent) (t : Connection F) : Prop
  | reads (he : e ≠ .ended ∧ ∀ penalized, e ≠ .crashed penalized) (h : Reads (s.Replays e) s t)
  | ends (he : e = .ended) (ht : t = s.read .done) (hhand : s.hand = [])
  | crashes (penalized : Bool) (he : e = .crashed penalized) (h : Kept [] s t)

theorem exists_noteHealth (hu : s.upstream = some u) {unhealthy : Bool} :
    (∃ v, (s.noteHealth unhealthy).upstream = some v) ∧
      ∀ {extra : List RequestId} {t : Connection F}, Kept extra (s.noteHealth unhealthy) t →
        Kept extra s t := by
  cases unhealthy with
  | false => exact ⟨⟨u,hu⟩,id⟩
  | true => exact ⟨⟨_,upstream_requestReconnect hu⟩,kept_requestReconnect⟩

theorem step_moves {e : ReaderEvent} (h : s.step setup (.reader e) = some t) : Moves s e t := by
  obtain ⟨u,hu,hstep⟩ := Option.bind_eq_some_iff.mp h
  have hhand : s.hand = u.reader.hand := by simp [hand,hu]
  have hlost : u.reader.hand = [] → ∀ {cause}, Reads cause s s.clientLost := fun hr _ =>
    reads_of_kept (hhand.trans hr) (kept_failPending hu)
  unfold readerStep at hstep
  split at hstep
  · rename_i ev hr
    rw [hr] at hhand
    cases hstep
    exact .reads (by simp) (reads_process hu hhand)
  · rename_i hr
    cases hstep
    exact .reads (by simp) (.keeps (kept_self hu (by rw [hr]; decide)))
  · rename_i hr
    cases hstep
    exact .reads (by simp) (.keeps (kept_self hu (by rw [hr]; decide)))
  · rename_i hr
    cases hstep
    exact .reads (by simp) (hlost (by rw [hr]; rfl))
  · rename_i hr
    cases hstep
    exact .reads (by simp) (hlost (by rw [hr]; rfl))
  · rename_i penalized hr
    rw [hr] at hhand
    split at hstep
    · rename_i q hreplay
      obtain ⟨hpending,hholder⟩ := replayable_spec hreplay
      cases hstep
      refine .reads (by simp) (.parks (by simp [Replays,hreplay]) q (by simp [hpending])
        ⟨rfl,hholder,?_,rfl,?_⟩)
      · exact (s.book.holder_update q _ (replayedFresh_flags setup)).trans hholder
      · simp [hand,read,park,popReplay,hu,Reader.hand]
    · cases hstep
      exact .reads (by simp) (reads_of_kept hhand (kept_failPending hu))
  · rename_i penalized hr
    rw [hr] at hhand
    cases hstep
    exact .reads (by simp) (reads_of_kept hhand (kept_failPending hu))
  · rename_i requests hr
    rw [hr] at hhand
    cases hstep
    have hkept := kept_fail (s := {s with pending := s.pending.filter (· ∉ requests)}) hu
      (s.pending.filter (· ∈ requests)) false .receive
    refine .reads (by simp) (reads_of_kept hhand (hkept.of_pending fun p => ?_))
    simp only [List.mem_filter,decide_eq_true_eq]
    tauto
  · rename_i q queue next unhealthy hr
    rw [hr] at hhand
    cases hstep
    obtain ⟨⟨v,hv⟩,hkept⟩ := exists_noteHealth hu
    refine .reads (by simp) (.keeps ?_)
    rw [hhand]
    exact hkept (kept_release_read (r := .busy queue next) hv (by simp) q)
  · rename_i next unhealthy hr
    rw [hr] at hhand
    cases hstep
    obtain ⟨⟨v,hv⟩,hkept⟩ := exists_noteHealth hu
    exact .reads (by simp) (reads_of_kept hhand (hkept (kept_resume hv next)))
  · rename_i hr
    rw [hr] at hhand
    cases hstep
    exact .reads (by simp) (reads_of_kept hhand (kept_afterMessage hu))
  · rename_i hr
    cases hstep
    exact .reads (by simp) (hlost (by rw [hr]; rfl))
  · rename_i hr
    rw [hr] at hhand
    exact .ends rfl (Option.some.inj hstep).symm hhand
  · cases hstep
    exact .crashes _ rfl (kept_failPending hu)
  · cases hstep
    exact .crashes _ rfl (kept_failPending hu)
  · cases hstep

end Connection

end CodexLb.WebsocketProxy
