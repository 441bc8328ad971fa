import CodexLb.TrafficWire

/-!
# What keeps a wire in order

Every operation of a `Wire` has one theorem with the condition under which it
keeps `Ordered`.
-/
namespace CodexLb.Traffic

namespace Wire
variable {w : Wire}

namespace Ordered

variable {i : ℕ} {p : SubmitPhase}

variable (h : w.Ordered)
include h

theorem phase (hwait : ∀ q ∈ p.unqueued i, q ∉ w.pending ∧ w.ids q = some none)
    (hadm : ∀ q, p.admitting i = some q → w.holds q = true) : (w.phase i p).Ordered := by
  refine {h with waiting := ?_,admitted := ?_}
  · intro j p' hp
    by_cases hj : j = i
    · subst hj
      simp only [Wire.phase,Function.update_self,Option.some.injEq] at hp
      subst hp
      exact hwait
    · simp only [Wire.phase,Function.update_of_ne hj] at hp
      exact h.waiting j p' hp
  · intro j p' q hp hq
    by_cases hj : j = i
    · subst hj
      simp only [Wire.phase,Function.update_self,Option.some.injEq] at hp
      subst hp
      exact hadm q hq
    · simp only [Wire.phase,Function.update_of_ne hj] at hp
      exact h.admitted j p' q hp hq

variable {p' : SubmitPhase}

theorem advance (hp : w.submits i = some p) (hsub : p'.unqueued i ⊆ p.unqueued i)
    (hadm : p'.admitting i = none) : (w.phase i p').Ordered :=
  h.phase (fun q hq => h.waiting i p hp q (hsub hq)) fun q hq => by rw [hadm] at hq; cases hq

theorem read {r : Reader} (hreads : r.reads = true → w.reader.reads = true ∨ w.unanswered = [])
    (hfits : ∀ k, r = .handling k → k.Fits w.ids w.sender) (hnone : r.interrupted = none) :
    (w.read r).Ordered := by
  refine {h with opened := ?_,handles := hfits,uninterrupted := hnone}
  intro hr
  rcases hreads hr with hr | hempty
  · exact h.opened hr
  · change w.unanswered.length ≤ 1 ∧ ∀ q ∈ w.unanswered, q ∈ w.pending ∧ w.ids q = some none
    rw [hempty]
    simp

theorem stop : (w.read .stopped).Ordered :=
  h.read (fun hr => by cases hr) (fun _ hk => by cases hk) rfl

/-- The queue loses requests, none with an unanswered message. -/
theorem setPending {qs : List RequestId} (hsub : qs.Sublist w.pending)
    (hkeep : w.reader.reads = true → w.unanswered ⊆ qs) : (w.setPending qs).Ordered :=
  {h with
    nodup := h.nodup.sublist hsub
    known := fun q hq => h.known q (hsub.subset hq)
    queued := fun q hq => h.queued q (hsub.subset hq)
    waiting := fun i p hp q hq =>
      ⟨fun hmem => (h.waiting i p hp q hq).1 (hsub.subset hmem),(h.waiting i p hp q hq).2⟩
    opened := fun hr => ⟨(h.opened hr).1,fun q hq =>
      ⟨hkeep hr hq,((h.opened hr).2 q hq).2⟩⟩}

variable {q : RequestId}

theorem enqueue (hout : q ∉ w.pending) (hknown : w.ids q ≠ none)
    (hholds : w.holds q = true) (hfree : ∀ i p, w.submits i = some p → q ∉ p.unqueued i) :
    (w.enqueue q).Ordered := by
  refine {h with nodup := ?_,known := ?_,queued := ?_,waiting := ?_,opened := ?_}
  · exact List.nodup_append.mpr ⟨h.nodup,List.nodup_singleton q,fun a ha b hb he => by
      rw [List.mem_singleton.mp hb] at he
      exact hout (he ▸ ha)⟩
  · intro p hp
    rcases List.mem_append.mp hp with hp | hp
    · exact h.known p hp
    · rw [List.mem_singleton.mp hp]
      exact hknown
  · intro p hp hid
    rcases List.mem_append.mp hp with hp | hp
    · exact h.queued p hp hid
    · rw [List.mem_singleton.mp hp]
      exact hholds
  · intro i p hp r hr
    refine ⟨?_,(h.waiting i p hp r hr).2⟩
    intro hmem
    rcases List.mem_append.mp hmem with hmem | hmem
    · exact (h.waiting i p hp r hr).1 hmem
    · rw [List.mem_singleton.mp hmem] at hr
      exact hfree i p hp hr
  · exact fun hr => ⟨(h.opened hr).1,fun p hp =>
      ⟨List.mem_append_left _ ((h.opened hr).2 p hp).1,((h.opened hr).2 p hp).2⟩⟩

/-- The gate comes back from a request that is not waiting for its response. -/
theorem release (hq : q ∈ w.pending → w.ids q ≠ some none)
    (hadm : ∀ i p, w.submits i = some p → p.admitting i ≠ some q) : (w.release q).Ordered := by
  have hsub : ∀ p, (w.release q).holds p = true → p ≠ q ∧ w.holds p = true := by
    intro p hp
    by_cases hpq : p = q
    · subst hpq
      simp [Wire.release] at hp
    · exact ⟨hpq,by simpa only [Wire.release,Function.update_of_ne hpq] using hp⟩
  have hkeep : ∀ p, p ≠ q → w.holds p = true → (w.release q).holds p = true := by
    intro p hpq hp
    simpa only [Wire.release,Function.update_of_ne hpq] using hp
  refine {h with exclusive := ?_,taken := ?_,permit := ?_,queued := ?_,admitted := ?_}
  · exact fun a b ha hb => h.exclusive a b (hsub a ha).2 (hsub b hb).2
  · intro p hp
    obtain ⟨hpq,hp⟩ := hsub p hp
    have hfree : w.holds q = false := by
      by_contra hh
      exact hpq (h.exclusive p q hp (by simpa using hh))
    simp only [Wire.release,hfree,Bool.false_eq_true,if_false]
    exact h.taken p hp
  · cases hh : w.holds q with
    | false => simpa only [Wire.release,hh,Bool.false_eq_true,if_false] using h.permit
    | true => simp only [Wire.release,hh,if_true,h.taken q hh,le_refl,Nat.zero_add]
  · intro p hp hid
    refine hkeep p ?_ (h.queued p hp hid)
    rintro rfl
    exact hq hp hid
  · intro i p r hp hr
    refine hkeep r ?_ (h.admitted i p r hp hr)
    rintro rfl
    exact hadm i p hp hr

/-- A request that leaves the queue and gives the gate back when its submit ends. -/
theorem withdraw (hp : w.submits i = some p) (hsub : p'.unqueued i ⊆ p.unqueued i)
    (hadm : p'.admitting i = none) (hq : q.submit = i)
    (hkeep : w.reader.reads = true → q ∉ w.unanswered) :
    (((w.phase i p').setPending (w.pending.erase q)).release q).Ordered := by
  have hphase := h.advance hp hsub hadm
  have hdrop : ((w.phase i p').setPending (w.pending.erase q)).Ordered := by
    refine hphase.setPending List.erase_sublist ?_
    intro hr a ha
    refine (List.mem_erase_of_ne ?_).mpr ((h.opened hr).2 a ha).1
    rintro rfl
    exact hkeep hr ha
  refine hdrop.release (fun hmem => absurd hmem h.nodup.not_mem_erase) ?_
  intro j p'' hp'' ha
  by_cases hj : j = i
  · subst hj
    simp only [Wire.setPending,Wire.phase,Function.update_self,Option.some.injEq] at hp''
    subst hp''
    rw [hadm] at ha
    cases ha
  · exact hj ((SubmitPhase.unqueued_submit (p''.admitting_unqueued ha)).symm.trans hq)

theorem release_resolved (hq : w.Resolved q) : (w.release q).Ordered := by
  obtain ⟨x,hx⟩ := hq
  refine h.release (fun _ hn => by rw [hx] at hn; cases hn) ?_
  intro i p hp hr
  have hn := (h.waiting i p hp q (p.admitting_unqueued hr)).2
  rw [hx] at hn
  cases hn

theorem acquire (hgate : w.gate ≠ 0) : (w.acquire q).Ordered := by
  have hnone : ∀ p, w.holds p ≠ true := fun p hp => hgate (h.taken p hp)
  have hone : ∀ p, (w.acquire q).holds p = true → p = q := by
    intro p hp
    by_contra hpq
    simp only [Wire.acquire,Function.update_of_ne hpq] at hp
    exact hnone p hp
  refine {h with exclusive := ?_,taken := ?_,permit := ?_,queued := ?_,admitted := ?_}
  · exact fun a b ha hb => (hone a ha).trans (hone b hb).symm
  · intro p _
    have := h.permit
    simp only [Wire.acquire]
    omega
  · have := h.permit
    simp only [Wire.acquire]
    omega
  · exact fun p hp hid => absurd (h.queued p hp hid) (hnone p)
  · exact fun i p r hp hr => absurd (h.admitted i p r hp hr) (hnone r)

theorem create (hq : w.ids q = none) : (w.create q).Ordered := by
  have hpend : q ∉ w.pending := fun hmem => h.known q hmem hq
  have hid : ∀ p, p ≠ q → (w.create q).ids p = w.ids p := fun p hp => by
    simp only [Wire.create,Function.update_of_ne hp]
  have hself : (w.create q).ids q = some none := by simp only [Wire.create,Function.update_self]
  have hholds : ∀ p, (w.create q).holds p = true → w.holds p = true := by
    intro p hp
    by_cases hpq : p = q
    · subst hpq
      simp [Wire.create] at hp
    · simpa only [Wire.create,Function.update_of_ne hpq] using hp
  have hkeep : ∀ p, p ≠ q → w.holds p = true → (w.create q).holds p = true := by
    intro p hpq hp
    simpa only [Wire.create,Function.update_of_ne hpq] using hp
  have hsome : ∀ p x, (w.create q).ids p = some (some x) → w.ids p = some (some x) := by
    intro p x hp
    by_cases hpq : p = q
    · subst hpq
      rw [hself] at hp
      cases hp
    · rwa [hid p hpq] at hp
  refine
    {h with
      exclusive := fun a b ha hb => h.exclusive a b (hholds a ha) (hholds b hb)
      taken := fun p hp => h.taken p (hholds p hp)
      known := ?_
      queued := ?_
      drains := ?_
      waiting := ?_
      admitted := ?_
      named := fun p x hp => h.named p x (hsome p x hp)
      distinct := fun a b x ha hb => h.distinct a b x (hsome a x ha) (hsome b x hb)
      answered := fun u n l x p hl hx hp => ids_create_of_some hq (h.answered u n l x p hl hx hp)
      opened := ?_
      handles := ?_}
  · intro p hp
    rw [hid p (fun he => hpend (he ▸ hp))]
    exact h.known p hp
  · intro p hp hn
    have hpq : p ≠ q := fun he => hpend (he ▸ hp)
    rw [hid p hpq] at hn
    exact hkeep p hpq (h.queued p hp hn)
  · intro p hp
    by_cases hpq : p = q
    · subst hpq
      simp [Wire.create] at hp
    · rw [hid p hpq]
      exact h.drains p (by simpa only [Wire.create,Function.update_of_ne hpq] using hp)
  · intro i p hp r hr
    exact ⟨(h.waiting i p hp r hr).1,ids_create_of_some hq (h.waiting i p hp r hr).2⟩
  · intro i p r hp hr
    refine hkeep r ?_ (h.admitted i p r hp hr)
    rintro rfl
    rw [(h.waiting i p hp r (p.admitting_unqueued hr)).2] at hq
    cases hq
  · exact fun hr => ⟨(h.opened hr).1,fun p hp =>
      ⟨((h.opened hr).2 p hp).1,ids_create_of_some hq ((h.opened hr).2 p hp).2⟩⟩
  · exact fun k hk => (h.handles k hk).mono (fun p x => ids_create_of_some hq) fun _ _ => id

theorem drain (hq : w.Resolved q) : (w.drain q).Ordered := by
  refine {h with drains := ?_}
  intro p hp
  by_cases hpq : p = q
  · subst hpq
    obtain ⟨x,hx⟩ := hq
    intro hn
    change w.ids p = some none at hn
    rw [hx] at hn
    cases hn
  · exact h.drains p (by simpa only [Wire.drain,Function.update_of_ne hpq] using hp)

theorem deliver {d : Delivery}
    (hd : ∀ o, d.origin = some o → w.sender o = some d.request) : (w.deliver d).Ordered := by
  refine {h with delivered := ?_}
  intro d' hd' o ho
  rcases List.mem_append.mp hd' with hd' | hd'
  · exact h.delivered d' hd' o ho
  · rw [List.mem_singleton.mp hd'] at ho ⊢
    exact hd o ho

theorem reopen : w.reopen.Ordered := by
  refine
    {h with
      named := ?_
      counted := ?_
      answered := ?_
      opened := ?_
      handles := fun k hk => (h.handles k hk).mono (fun _ _ => id) fun _ _ => sender_reopen
      delivered := fun d hd o ho => sender_reopen (h.delivered d hd o ho)}
  · intro q x hq
    obtain ⟨l,hl,hx⟩ := h.named q x hq
    exact ⟨l,List.mem_append_left _ hl,hx⟩
  · intro l hl
    rcases List.mem_append.mp hl with hl | hl
    · exact h.counted l hl
    · rw [List.mem_singleton.mp hl]
      exact le_refl 0
  · intro u n l x q hl hx hq
    by_cases hu : u < w.lines.length
    · refine h.answered u n l x q ?_ hx hq
      rwa [Wire.reopen,List.getElem?_append_left hu] at hl
    · rw [Wire.reopen,List.getElem?_append_right (by omega)] at hl
      have hnew := List.mem_singleton.mp (List.mem_of_getElem? hl)
      subst hnew
      cases hx
  · intro _
    rw [unanswered_reopen]
    simp

/-- On the current socket only a pending request without a response may write,
and only when every message before is answered. -/
theorem write {u : ℕ}
    (hcur : u = w.current → w.reader.reads = true → q ∈ w.pending ∧ w.ids q = some none ∧
      w.unanswered = []) : (w.write u q).Ordered := by
  refine
    {h with
      named := fun p x hp => mem_responses_modify (fun _ hk => hk) (h.named p x hp)
      counted := ?_
      answered := ?_
      opened := ?_
      handles := fun k hk => (h.handles k hk).mono (fun _ _ => id) fun _ _ => sender_write
      delivered := fun d hd o ho => sender_write (h.delivered d hd o ho)}
  · intro l hl
    obtain ⟨v,hv⟩ := List.mem_iff_getElem?.mp hl
    obtain ⟨k,hk,⟨_,rfl⟩|⟨_,rfl⟩⟩ := line_of_modify hv
    · exact h.counted l (List.mem_of_getElem? hk)
    · have := h.counted k (List.mem_of_getElem? hk)
      simp only [List.length_append,List.length_singleton]
      omega
  · intro v n l x p hl hx hp
    obtain ⟨k,hk,⟨_,rfl⟩|⟨_,rfl⟩⟩ := line_of_modify hl
    · exact h.answered v n l x p hk hx hp
    · have hn : n < k.responses.length := (List.getElem?_eq_some_iff.mp hx).1
      have hle := h.counted k (List.mem_of_getElem? hk)
      refine h.answered v n k x p hk hx ?_
      rwa [List.getElem?_append_left (by omega)] at hp
  · intro hr
    by_cases hu : u = w.current
    · obtain ⟨hpend,hid,hempty⟩ := hcur hu hr
      subst hu
      constructor
      · have hlen := length_unanswered_write q h.counted
        rwa [hempty,List.length_nil,Nat.zero_add] at hlen
      · intro p hp
        have hmem := unanswered_write q h.counted p hp
        rw [hempty,List.nil_append,List.mem_singleton] at hmem
        subst hmem
        exact ⟨hpend,hid⟩
    · rw [unanswered_write_other q hu]
      exact h.opened hr

omit h

section Respond
variable {l : Line} {x : String} {q : RequestId}

theorem ids_respond {p : RequestId} :
    (w.respond x q).ids p = if p = q then some (some x) else w.ids p :=
  Function.update_apply ..

theorem next_mem_unanswered (hl : w.lines[w.current]? = some l)
    (hq : l.sent[l.responses.length]? = some q) : q ∈ w.unanswered := by
  rw [unanswered,hl,Option.elim_some,Line.unanswered,List.mem_iff_getElem?]
  exact ⟨0,by rw [List.getElem?_drop,Nat.add_zero,hq]⟩

theorem unanswered_respond (hl : w.lines[w.current]? = some l) (hlen : w.unanswered.length ≤ 1) :
    (w.respond x q).unanswered = [] := by
  rw [unanswered,hl,Option.elim_some,Line.unanswered,List.length_drop] at hlen
  rw [unanswered,current_respond,Wire.respond,getElem?_modify_line,if_pos rfl,hl]
  simp only [Option.map_some,Option.elim_some,Line.unanswered,List.length_append,
    List.length_singleton,List.drop_eq_nil_iff]
  omega

variable {y : String}

theorem named_respond (h : w.Ordered) (hl : w.lines[w.current]? = some l) {p : RequestId}
    (hp : (w.respond x q).ids p = some (some y)) :
    ∃ k ∈ (w.respond x q).lines, y ∈ k.responses := by
  rw [ids_respond] at hp
  split_ifs at hp
  · cases hp
    refine ⟨{l with responses := l.responses++[x]},List.mem_iff_getElem?.mpr ⟨w.current,?_⟩,
      List.mem_append_right l.responses (List.mem_singleton_self x)⟩
    simp only [Wire.respond,getElem?_modify_line,if_true,hl,Option.map_some]
  · exact mem_responses_modify (fun _ hk => List.mem_append_left _ hk) (h.named p y hp)

theorem distinct_respond (h : w.Ordered) (hfresh : ∀ l ∈ w.lines, x ∉ l.responses)
    {a b : RequestId} (ha : (w.respond x q).ids a = some (some y))
    (hb : (w.respond x q).ids b = some (some y)) : a = b := by
  have hother : ∀ p, w.ids p ≠ some (some x) := by
    intro p hp
    obtain ⟨k,hk,hx⟩ := h.named p x hp
    exact hfresh k hk hx
  rw [ids_respond] at ha hb
  split_ifs at ha hb with haq hbq hbq
  · exact haq.trans hbq.symm
  · cases ha
    exact absurd hb (hother b)
  · cases hb
    exact absurd ha (hother a)
  · exact h.distinct a b y ha hb

variable {k : Line}

theorem answered_respond (h : w.Ordered) (hl : w.lines[w.current]? = some l)
    (hq : l.sent[l.responses.length]? = some q) (hnone : w.ids q = some none) {v n : ℕ}
    {p : RequestId} (hk : (w.respond x q).lines[v]? = some k) (hy : k.responses[n]? = some y)
    (hp : k.sent[n]? = some p) : (w.respond x q).ids p = some (some y) := by
  have hkeep : w.ids p = some (some y) → (w.respond x q).ids p = some (some y) := by
    intro hid
    rw [ids_respond,if_neg]
    · exact hid
    · rintro rfl
      rw [hnone] at hid
      cases hid
  obtain ⟨k',hk',⟨_,rfl⟩|⟨hcur,rfl⟩⟩ := line_of_modify hk
  · exact hkeep (h.answered v n k y p hk' hy hp)
  · subst hcur
    rw [hl] at hk'
    cases hk'
    by_cases hn : n < l.responses.length
    · simp only [List.getElem?_append_left hn] at hy
      exact hkeep (h.answered w.current n l y p hl hy hp)
    · have hle : n < (l.responses++[x]).length := (List.getElem?_eq_some_iff.mp hy).1
      have hn' : n = l.responses.length := by
        simp only [List.length_append,List.length_singleton] at hle
        omega
      subst hn'
      simp only [List.getElem?_concat_length,Option.some.injEq] at hy
      rw [show l.sent[l.responses.length]? = some p from hp] at hq
      cases hq
      rw [ids_respond,if_pos rfl,hy]

theorem counted_respond (h : w.Ordered) (hl : w.lines[w.current]? = some l)
    (hq : l.sent[l.responses.length]? = some q) (hk : k ∈ (w.respond x q).lines) :
    k.responses.length ≤ k.sent.length := by
  obtain ⟨v,hv⟩ := List.mem_iff_getElem?.mp hk
  obtain ⟨k',hk',⟨_,rfl⟩|⟨hcur,rfl⟩⟩ := line_of_modify hv
  · exact h.counted k (List.mem_of_getElem? hk')
  · subst hcur
    rw [hl] at hk'
    cases hk'
    have hlt := (List.getElem?_eq_some_iff.mp hq).1
    simp only [List.length_append,List.length_singleton]
    omega

theorem respond (h : w.Ordered) (hr : w.reader.reads = true) (hl : w.lines[w.current]? = some l)
    (hq : l.sent[l.responses.length]? = some q)
    (hfresh : ∀ l ∈ w.lines, x ∉ l.responses) : (w.respond x q).Ordered := by
  obtain ⟨hlen,hopen⟩ := h.opened hr
  obtain ⟨hpend,hnone⟩ := hopen q (next_mem_unanswered hl hq)
  have hkeep : ∀ p y, w.ids p = some (some y) → (w.respond x q).ids p = some (some y) := by
    intro p y hp
    rw [ids_respond,if_neg]
    · exact hp
    · rintro rfl
      rw [hnone] at hp
      cases hp
  refine
    {h with
      known := ?_
      queued := ?_
      drains := ?_
      waiting := ?_
      named := fun _ _ hp => named_respond h hl hp
      distinct := fun _ _ _ ha hb => distinct_respond h hfresh ha hb
      counted := fun _ hk => counted_respond h hl hq hk
      answered := fun _ _ _ _ _ hk hy hp => answered_respond h hl hq hnone hk hy hp
      opened := ?_
      handles := fun k hk => (h.handles k hk).mono hkeep fun o p hp => by rwa [sender_respond]
      delivered := fun d hd o ho => by
        rw [sender_respond]
        exact h.delivered d hd o ho}
  · intro p hp
    rw [ids_respond]
    split_ifs
    · simp
    · exact h.known p hp
  · intro p hp hn
    rw [ids_respond] at hn
    split_ifs at hn
    · cases hn
    · exact h.queued p hp hn
  · intro p hp
    rw [ids_respond]
    split_ifs
    · simp
    · exact h.drains p hp
  · intro i p hp r hwait
    obtain ⟨hout,hrid⟩ := h.waiting i p hp r hwait
    refine ⟨hout,?_⟩
    rw [ids_respond,if_neg]
    · exact hrid
    · rintro rfl
      exact hout hpend
  · intro _
    rw [unanswered_respond hl hlen]
    simp

end Respond

end Ordered

end Wire

end CodexLb.Traffic
