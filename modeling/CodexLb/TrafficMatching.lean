import CodexLb.TrafficSteps

/-!
# What the matching functions may answer

Every guess is a request of the queue, and a match by response id is a request
that has this id. The groups of a shared error are taken from the queue.
-/
namespace CodexLb.Traffic

section
variable {F : Type} {ps : List (RequestId × Request F)} {ev : UpstreamEvent} {q : RequestId}

theorem mem_of_single {α : Type*} {l : List α} {a : α} (h : single l = some a) : a ∈ l := by
  unfold single at h
  split at h
  · cases h
    exact List.mem_singleton_self _
  · cases h

variable {x : String}

theorem findByResponseId_eq_some (h : findByResponseId ps x = some q) :
    ∃ r, (q,r) ∈ ps ∧ r.responseId = some x := by
  obtain ⟨⟨_,r⟩,hf,rfl⟩ := Option.map_eq_some_iff.mp h
  exact ⟨r,List.mem_of_find?_eq_some hf,by simpa using List.find?_some hf⟩

variable {r : Request F}

theorem findByResponseId_ne_none (hmem : (q,r) ∈ ps) (hid : r.responseId = some x) :
    findByResponseId ps x ≠ none := by
  intro h
  have hnone := List.find?_eq_none.mp (Option.map_eq_none_iff.mp h) (q,r) hmem
  simp [hid] at hnone

/-- A fresh id goes to an unresolved request, if a visible one waits. -/
theorem assignResponseId_eq_some (hfresh : ∀ p ∈ ps, p.2.responseId ≠ some x) (hmem : (q,r) ∈ ps)
    (hid : r.responseId = none) (hdrain : r.drainingUntilTerminal = false) :
    ∃ p r', assignResponseId ps (some x) = some p ∧ (p,r') ∈ ps ∧ r'.responseId = none := by
  have hnone : findByResponseId ps x = none := by
    rw [findByResponseId,Option.map_eq_none_iff,List.find?_eq_none]
    intro p hp
    simpa using hfresh p hp
  cases hf : ps.find? fun p => p.2.unresolved && p.2.countsAgainstQueue with
  | none =>
    have := List.find?_eq_none.mp hf (q,r) hmem
    simp [Request.unresolved,Request.countsAgainstQueue,hid,hdrain] at this
  | some p =>
    have hp := List.find?_some hf
    simp only [Request.unresolved,Bool.and_eq_true,decide_eq_true_eq] at hp
    exact ⟨p.1,p.2,by simp [assignResponseId,hnone,hf],List.mem_of_find?_eq_some hf,hp.1⟩

theorem matchingForPreviousResponseError_sublist :
    List.Sublist (matchingForPreviousResponseError ps ev) ps := by
  have hfilter : ∀ {f g : RequestId × Request F → Bool}, ((ps.filter f).filter g).Sublist ps :=
    List.filter_sublist.trans List.filter_sublist
  unfold matchingForPreviousResponseError
  dsimp only
  split_ifs with _ _ hhint hment hone hmany
  · exact List.Sublist.refl ps
  · exact List.nil_sublist ps
  · split
    · exact List.nil_sublist ps
    · exact hfilter
  · exact hfilter
  · exact hfilter
  · exact hfilter
  · exact List.nil_sublist ps

theorem matchingForMissingToolOutput_sublist :
    List.Sublist (matchingForMissingToolOutput ps) ps := by
  unfold matchingForMissingToolOutput
  dsimp only
  split_ifs
  · exact List.filter_sublist
  · exact List.filter_sublist
  · exact List.nil_sublist ps

def Drawn {α : Type*} (l : List α) (o : Option α) : Prop := ∀ a, o = some a → a ∈ l

namespace Drawn
variable {α : Type*} {l k : List α} {a b : Option α}

theorem none : Drawn l (none : Option α) := nofun

theorem orElse (ha : Drawn l a) (hb : Drawn l b) : Drawn l (a <|> b) := by
  cases a with
  | none => simpa using hb
  | some x => simpa using ha

theorem ite {c : Prop} [Decidable c] (ha : Drawn l a) (hb : Drawn l b) :
    Drawn l (if c then a else b) := by
  split_ifs
  · exact ha
  · exact hb

theorem single (h : k ⊆ l) : Drawn l (single k) := fun _ hx => h (mem_of_single hx)

theorem head (h : k ⊆ l) : Drawn l k.head? := fun _ hx => h (List.mem_of_head? hx)

theorem keys {o : Option (RequestId × Request F)} (h : Drawn ps o) :
    Drawn (ps.map Prod.fst) (o.map Prod.fst) := by
  intro q hq
  obtain ⟨p,hp,rfl⟩ := Option.map_eq_some_iff.mp hq
  exact List.mem_map_of_mem (h p hp)

end Drawn

theorem matchAnonymousEvent_drawn : Drawn (ps.map Prod.fst) (matchAnonymousEvent ps ev) := by
  have hfilter : ∀ f : RequestId × Request F → Bool, ps.filter f ⊆ ps :=
    fun f => List.filter_sublist.subset
  have hunresolved : ∀ f g : RequestId × Request F → Bool, (ps.filter f).filter g ⊆ ps :=
    fun f g => (List.filter_sublist.trans List.filter_sublist).subset
  refine .ite (Drawn.single matchingForPreviousResponseError_sublist.subset).keys (Drawn.keys ?_)
  have hdrained := Drawn.ite (c := (ps.filter fun q => q.2.countsAgainstQueue).isEmpty = true)
    (Drawn.head (hfilter fun q => q.2.drainingUntilTerminal)) .none
  have hdrain := Drawn.orElse
    (Drawn.single (hunresolved (fun q => q.2.drainingUntilTerminal) fun q => q.2.unresolved)) hdrained
  exact .orElse (.ite hdrain .none) (.orElse (.single (hfilter _))
    (.orElse (.single (hunresolved _ _)) (.ite hdrain .none)))

theorem findByResponseId_drawn (x : String) : Drawn (ps.map Prod.fst) (findByResponseId ps x) :=
  Drawn.keys fun _ h => List.mem_of_find?_eq_some h

theorem matchEvent_drawn : Drawn (ps.map Prod.fst) (matchEvent ps ev) := by
  have hfind : ∀ f : RequestId × Request F → Bool,
      Drawn (ps.map Prod.fst) ((ps.find? f).map Prod.fst) :=
    fun f => Drawn.keys fun _ h => List.mem_of_find?_eq_some h
  unfold matchEvent
  split_ifs
  · cases ev.responseId with
    | none => exact .none
    | some x =>
      exact .orElse (findByResponseId_drawn x) (.orElse (hfind _) (.orElse (hfind _) (hfind _)))
  · cases ev.responseId with
    | none => exact matchAnonymousEvent_drawn
    | some x => exact findByResponseId_drawn x

/-- A request matched before is used again if it is still in the queue. -/
theorem fallback_drawn (fallback : Option RequestId) :
    Drawn (ps.map Prod.fst) (fallback.filter fun i => ps.any fun q => q.1 = i) := by
  intro q hq
  obtain ⟨-,hany⟩ := Option.filter_eq_some_iff.mp hq
  obtain ⟨p,hp,he⟩ := List.any_eq_true.mp hany
  exact List.mem_map.mpr ⟨p,hp,by simpa using he⟩

theorem popTerminal_drawn {fallback : Option RequestId} :
    Drawn (ps.map Prod.fst) (popTerminal ps ev fallback) := by
  have hkept := @fallback_drawn F ps fallback
  unfold popTerminal
  cases ev.responseId with
  | none => exact hkept.orElse matchAnonymousEvent_drawn
  | some x =>
    refine .orElse (findByResponseId_drawn x) (.orElse hkept (.orElse ?_ (.ite ?_ .none)))
    · exact (Drawn.single List.filter_sublist.subset).keys
    · exact (Drawn.single matchingForPreviousResponseError_sublist.subset).keys

theorem popTerminal_of_responseId {m : Option RequestId} (hid : ev.responseId = some x)
    (hfind : findByResponseId ps x = some q) : popTerminal ps ev m = some q := by
  simp [popTerminal,hid,hfind]

end

namespace Session
variable {F : Type} {s : Session F} {ev : UpstreamEvent} {q : RequestId}

theorem mem_pendingStates {r : Request F} :
    (q,r) ∈ s.pendingStates ↔ q ∈ s.pending ∧ s.requests.get? q = some r :=
  Dict.mem_filterMap_get?

theorem pending_of_drawn {o : Option RequestId} (h : Drawn (s.pendingStates.map Prod.fst) o) :
    ∀ q, o = some q → q ∈ s.pending :=
  fun q hq => (s.requests.keys_filterMap_get?_sublist s.pending).subset (h q hq)

theorem errorGroup_sublist {terminal : Option RequestId} :
    (s.errorGroup ev terminal).Sublist s.pending := by
  have hcont : (s.continuityGroup ev).Sublist s.pending := by
    refine List.Sublist.trans (List.Sublist.map _ ?_)
      (s.requests.keys_filterMap_get?_sublist s.pending)
    split_ifs
    · exact matchingForMissingToolOutput_sublist
    · exact matchingForPreviousResponseError_sublist
  have hgroup : ∀ c : Bool,
      List.Sublist (if c then s.continuityGroup ev else []) s.pending := by
    intro c
    split_ifs
    · exact hcont
    · exact List.nil_sublist _
  unfold errorGroup
  by_cases hall : (terminal = none && ev.type = .error && ev.typelessError && List.isEmpty
      (if !(terminal.any fun q => (s.requests.get? q).any (·.countsAgainstQueue)) &&
        (ev.previousResponseNotFound || ev.missingToolOutput) then s.continuityGroup ev
      else [])) = true
  · rw [if_pos hall]
  · rw [if_neg hall]
    exact hgroup _

end Session

end CodexLb.Traffic
