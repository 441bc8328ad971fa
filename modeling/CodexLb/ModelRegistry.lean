import CodexLb.Dict
import Mathlib.Data.Finset.Image

/-!
# The model registry

Every update builds a new snapshot: plans that were not fetched this time are
carried over from the previous snapshot, the fetched models are merged over
them, and the index by plan is built from the index by model. Sets are iterated
in an order that the program does not fix, so an update comes with one for each
of its loops. A run is the list of its updates, the latest first, and what a
snapshot has to list is read off that list alone.
-/
namespace CodexLb.ModelRegistry
open Dict

structure UpstreamModel (D : Type*) where
  slug : String
  details : D
  deriving DecidableEq, Repr

abbrev Index := Dict String (Finset String)

structure ModelRegistrySnapshot (D : Type*) where
  models : Dict String (UpstreamModel D)
  modelPlans : Index
  planModels : Index
  fetchedAt : ℕ

/-- A loop over a set: the plans that are not refreshed, the models of one of
them, the plans of a model. -/
inductive Loop where
  | stalePlans
  | modelsOf (plan : String)
  | plansOf (slug : String)

structure Update (D : Type*) where
  perPlanResults : Dict String (List (UpstreamModel D))
  order : Loop → Finset String → List String
  mem_order : ∀ l s x, x ∈ order l s ↔ x ∈ s
  now : ℕ

def Index.at (d : Index) (k : String) : Finset String := (get? d k).getD ∅

/-- `setdefault(key, set()).add(value)` -/
def Index.add (d : Index) (q : String × String) : Index := set d q.1 (insert q.2 (d.at q.1))

variable {D : Type*}

abbrev Building (D : Type*) := Dict String (UpstreamModel D) × Index

def carry (previous : ModelRegistrySnapshot D) (b : Building D) (q : String × String) :
    Building D :=
  (match b.1.get? q.1,previous.models.get? q.1 with
    | none,some model => b.1.set q.1 model
    | _,_ => b.1,
   b.2.add q)

def merge (b : Building D) (q : String × UpstreamModel D) : Building D :=
  (b.1.set q.2.slug q.2,b.2.add (q.2.slug,q.1))

/-- The slugs of the plans that are not refreshed, each with its plan. -/
def Update.stale (u : Update D) (previous : ModelRegistrySnapshot D) : List (String × String) :=
  let plans := (previous.planModels.rows.map Prod.fst).toFinset.filter fun plan =>
    u.perPlanResults.get? plan = none
  (u.order .stalePlans plans).flatMap fun plan =>
    (u.order (.modelsOf plan) (previous.planModels.at plan)).map (·,plan)

def Update.fetched (u : Update D) : List (String × UpstreamModel D) :=
  u.perPlanResults.rows.flatMap fun r => r.2.map (r.1,·)

def Update.carried (u : Update D) : Option (ModelRegistrySnapshot D) → Building D
  | none => (empty,empty)
  | some previous => (u.stale previous).foldl (carry previous) (empty,empty)

def Update.build (u : Update D) (previous : Option (ModelRegistrySnapshot D)) : Building D :=
  u.fetched.foldl merge (u.carried previous)

def reverseIndex (order : Loop → Finset String → List String) (modelPlans : Index) : Index :=
  (modelPlans.rows.flatMap fun r => (order (.plansOf r.1) r.2).map (·,r.1)).foldl Index.add empty

def update (u : Update D) (previous : Option (ModelRegistrySnapshot D)) :
    Option (ModelRegistrySnapshot D) :=
  if u.perPlanResults.rows = [] then previous
  else
    let b := u.build previous
    some ⟨b.1,b.2,reverseIndex u.order b.2,u.now⟩

def registry : List (Update D) → Option (ModelRegistrySnapshot D)
  | [] => none
  | u::us => update u (registry us)

/-- The slugs of the most recent fetch of a plan. -/
def lastFetch (us : List (Update D)) (plan : String) : List String :=
  ((us.findSome? fun u => u.perPlanResults.get? plan).getD []).map UpstreamModel.slug

def Update.named (u : Update D) (slug : String) : Option (UpstreamModel D) :=
  (u.fetched.map Prod.snd).reverse.find? fun model => model.slug = slug

def lastModel (us : List (Update D)) (slug : String) : Option (UpstreamModel D) :=
  us.findSome? fun u => u.named slug

structure Consistent (us : List (Update D)) (s : ModelRegistrySnapshot D) : Prop where
  keys : ∀ slug, s.models.get? slug = none ↔ s.modelPlans.get? slug = none
  inverse : ∀ slug plan, slug ∈ s.planModels.at plan ↔ plan ∈ s.modelPlans.at slug
  lists : ∀ slug plan, slug ∈ s.planModels.at plan ↔ slug ∈ lastFetch us plan
  latest : ∀ slug model, s.models.get? slug = some model → lastModel us slug = some model

def Recorded (us : List (Update D)) : Option (ModelRegistrySnapshot D) → Prop
  | none => ∀ u ∈ us, u.perPlanResults.rows = []
  | some s => Consistent us s

variable {qs : List (String × String)} {d : Index} {k x : String}

theorem mem_foldl_add : x ∈ (qs.foldl Index.add d).at k ↔ x ∈ d.at k ∨ (k,x) ∈ qs := by
  induction qs generalizing d with
  | nil => simp
  | cons q qs ih =>
    have hadd : x ∈ (d.add q).at k ↔ x ∈ d.at k ∨ (k,x) = q := by
      rw [Index.at,Index.add,get?_set]
      split_ifs with hk
      · simp [hk,Prod.ext_iff,or_comm]
      · simp [hk,Prod.ext_iff,Index.at]
    rw [List.foldl_cons,ih,hadd,List.mem_cons,or_assoc]

theorem exists_of_mem_at (h : x ∈ d.at k) : ∃ s, d.get? k = some s ∧ x ∈ s := by
  rw [Index.at] at h
  cases hd : get? d k with
  | none => simp [hd] at h
  | some s => exact ⟨s,rfl,by simpa [hd] using h⟩

theorem mem_reverseIndex (u : Update D) (d : Index) (slug plan : String) :
    slug ∈ (reverseIndex u.order d).at plan ↔ plan ∈ d.at slug := by
  simp only [reverseIndex,mem_foldl_add,List.mem_flatMap,List.mem_map,u.mem_order]
  constructor
  · rintro (hempty | ⟨r,hr,p,hp,he⟩)
    · simp [Index.at] at hempty
    · cases he
      simpa [Index.at,get?_eq_some.mpr hr] using hp
  · intro hplan
    obtain ⟨plans,hplans,hmem⟩ := exists_of_mem_at hplan
    exact .inr ⟨_,get?_eq_some.mp hplans,plan,hmem,rfl⟩

variable {p : ModelRegistrySnapshot D} {slug : String}

theorem mem_stale {u : Update D} {plan : String} : (slug,plan) ∈ u.stale p ↔
      u.perPlanResults.get? plan = none ∧ slug ∈ p.planModels.at plan := by
  simp only [Update.stale,List.mem_flatMap,List.mem_map,u.mem_order,Finset.mem_filter,
    List.mem_toFinset,Prod.mk.injEq]
  constructor
  · rintro ⟨_,⟨-,hplan⟩,_,hslug,rfl,rfl⟩
    exact ⟨hplan,hslug⟩
  · rintro ⟨hplan,hslug⟩
    obtain ⟨slugs,hslugs,-⟩ := exists_of_mem_at hslug
    exact ⟨plan,⟨⟨_,get?_eq_some.mp hslugs,rfl⟩,hplan⟩,slug,hslug,rfl,rfl⟩

theorem mem_fetched (u : Update D) (slug plan : String) :
    (∃ q ∈ u.fetched, q.2.slug = slug ∧ q.1 = plan) ↔
      ∃ models, u.perPlanResults.get? plan = some models ∧
        slug ∈ models.map UpstreamModel.slug := by
  simp only [Update.fetched,List.mem_flatMap,List.mem_map,get?_eq_some]
  constructor
  · rintro ⟨_,⟨r,hr,model,hmodel,rfl⟩,rfl,rfl⟩
    exact ⟨r.2,hr,model,hmodel,rfl⟩
  · rintro ⟨models,hr,model,hmodel,rfl⟩
    exact ⟨_,⟨_,hr,model,hmodel,rfl⟩,rfl,rfl⟩

/-- What is collected so far has a model for every slug with a plan, and no others. -/
def Even (b : Building D) : Prop := ∀ slug, b.1.get? slug = none ↔ b.2.get? slug = none

variable {b : Building D}

theorem even_add (h : Even b) {models : Dict String (UpstreamModel D)} {model : UpstreamModel D}
    {q : String × String}
    (hmodels : ∀ slug, models.get? slug = if slug = q.1 then some model else b.1.get? slug) :
    Even (models,b.2.add q) := by
  intro slug
  rw [hmodels,Index.add,get?_set]
  split_ifs
  · simp
  · exact h slug

theorem even_carry (hqs : ∀ q ∈ qs, p.models.get? q.1 ≠ none) (heven : Even b)
    (hb : ∀ slug model, b.1.get? slug = some model → p.models.get? slug = some model) :
    Even (qs.foldl (carry p) b) ∧ ∀ slug model,
      (qs.foldl (carry p) b).1.get? slug = some model → p.models.get? slug = some model := by
  induction qs generalizing b with
  | nil => exact ⟨heven,hb⟩
  | cons q qs ih =>
    rw [List.forall_mem_cons] at hqs
    obtain ⟨model,hmodel⟩ := Option.ne_none_iff_exists'.mp hqs.1
    have hget (slug : String) : (carry p b q).1.get? slug =
        if slug = q.1 then some model else b.1.get? slug := by
      rw [carry,hmodel]
      cases hq : b.1.get? q.1 with
      | none => exact get?_set ..
      | some m =>
        split_ifs with hk
        · rw [hk,hq,← hmodel,hb _ _ hq]
        · rfl
    refine ih hqs.2 (even_add heven hget) fun slug m hm => ?_
    rw [hget] at hm
    split_ifs at hm with hk
    · rw [hk,hmodel,hm]
    · exact hb slug m hm

theorem even_merge {qs : List (String × UpstreamModel D)} (h : Even b) :
    Even (qs.foldl merge b) := by
  induction qs generalizing b with
  | nil => exact h
  | cons q qs ih => exact ih (even_add h fun slug => get?_set ..)

theorem get?_merge {qs : List (String × UpstreamModel D)} : (qs.foldl merge b).1.get? slug =
      ((qs.map Prod.snd).reverse.find? fun model => model.slug = slug).or (b.1.get? slug) := by
  induction qs generalizing b with
  | nil => rfl
  | cons q qs ih =>
    rw [List.foldl_cons,ih,merge,get?_set,List.map_cons,List.reverse_cons,List.find?_append,
      Option.or_assoc]
    by_cases hq : q.2.slug = slug
    · simp [hq]
    · simp [hq,Ne.symm hq]

section
variable {us : List (Update D)} {previous : Option (ModelRegistrySnapshot D)}
  (h : Recorded us previous) (u : Update D)
include h

theorem carried_even : Even (u.carried previous) ∧ ∀ slug model,
    (u.carried previous).1.get? slug = some model → lastModel us slug = some model := by
  have hempty : Even (empty,(empty : Index)) (D := D) := fun slug => by simp
  cases previous with
  | none => exact ⟨hempty,fun _ _ => not_mem_empty⟩
  | some p =>
    have hstale : ∀ q ∈ u.stale p, p.models.get? q.1 ≠ none := by
      intro q hq hnone
      have hplan := (h.inverse _ _).mp ((mem_stale).mp hq).2
      simp [Index.at,(h.keys _).mp hnone] at hplan
    obtain ⟨heven,hmodels⟩ := even_carry hstale hempty fun _ _ => not_mem_empty
    exact ⟨heven,fun slug model hm => h.latest slug model (hmodels slug model hm)⟩

theorem build_latest (slug : String) (model : UpstreamModel D)
    (hmodel : (u.build previous).1.get? slug = some model) :
    lastModel (u::us) slug = some model := by
  rw [Update.build,get?_merge,← Update.named] at hmodel
  rw [lastModel,List.findSome?_cons]
  cases hnamed : u.named slug with
  | some m => rwa [hnamed] at hmodel
  | none =>
    rw [hnamed] at hmodel
    exact (carried_even h u).2 slug model hmodel

theorem build_lists (slug plan : String) :
    plan ∈ (u.build previous).2.at slug ↔ slug ∈ lastFetch (u::us) plan := by
  have hmerge (qs : List (String × UpstreamModel D)) (b : Building D) : (qs.foldl merge b).2 =
      (qs.map fun q => (q.2.slug,q.1)).foldl Index.add b.2 := by
    rw [List.foldl_map]
    exact (List.foldl_hom Prod.snd fun _ _ => rfl).symm
  have hstale : plan ∈ (u.carried previous).2.at slug ↔
      u.perPlanResults.get? plan = none ∧ slug ∈ lastFetch us plan := by
    cases previous with
    | some p =>
      have hcarry (b : Building D) : ((u.stale p).foldl (carry p) b).2 =
          (u.stale p).foldl Index.add b.2 := (List.foldl_hom Prod.snd fun _ _ => rfl).symm
      rw [Update.carried,hcarry,mem_foldl_add,mem_stale,h.lists]
      simp [Index.at]
    | none =>
      have hempty : us.findSome? (fun v => v.perPlanResults.get? plan) = none :=
        List.findSome?_eq_none_iff.mpr fun v hv => get?_eq_none.mpr (by rw [h v hv]; simp)
      simp [lastFetch,hempty,Index.at,Update.carried]
  have hfetched := mem_fetched u slug plan
  rw [Update.build,hmerge,mem_foldl_add,hstale,List.mem_map]
  simp only [Prod.mk.injEq,hfetched,lastFetch,List.findSome?_cons]
  cases u.perPlanResults.get? plan with
  | none => simp
  | some models => simp

theorem recorded_update : Recorded (u::us) (update u previous) := by
  unfold update
  split_ifs with hempty
  · cases previous with
    | none => exact List.forall_mem_cons.mpr ⟨hempty,h⟩
    | some p =>
      have hnone (plan : String) : u.perPlanResults.get? plan = none :=
        get?_eq_none.mpr (by rw [hempty]; nofun)
      refine ⟨h.keys,h.inverse,fun slug plan => ?_,fun slug model hmodel => ?_⟩
      · rw [lastFetch,List.findSome?_cons,hnone]
        exact h.lists slug plan
      · rw [lastModel,List.findSome?_cons,Update.named,Update.fetched,hempty]
        exact h.latest slug model hmodel
  · have hinverse := mem_reverseIndex u (u.build previous).2
    exact ⟨even_merge (carried_even h u).1,hinverse,
      fun slug plan => (hinverse slug plan).trans (build_lists h u slug plan),build_latest h u⟩
end

/-- After every list of updates the two indexes and the models agree with each
other and with what was fetched. -/
theorem registry_recorded {us : List (Update D)} : Recorded us (registry us) := by
  induction us with
  | nil => exact nofun
  | cons u us ih => exact recorded_update ih u

def planTypesForModel (s : Option (ModelRegistrySnapshot D)) (slug : String) :
    Option (Finset String) := s.map fun s => s.modelPlans.at slug

theorem registry_eq_none {us : List (Update D)} :
    registry us = none ↔ ∀ u ∈ us, u.perPlanResults.rows = [] := by
  induction us with
  | nil => simp [registry]
  | cons u us ih =>
    rw [registry,update,List.forall_mem_cons,← ih]
    split_ifs with hempty <;> simp [hempty]

/-- There is no answer as long as nothing was fetched. After that a plan offers a
model exactly if its last fetch has listed it. -/
theorem planTypes_of_last_fetch {us : List (Update D)} {slug plan : String} :
    (planTypesForModel (registry us) slug = none ↔ ∀ u ∈ us, u.perPlanResults.rows = []) ∧
    ((∃ plans ∈ planTypesForModel (registry us) slug, plan ∈ plans) ↔
      slug ∈ lastFetch us plan) := by
  refine ⟨by rw [planTypesForModel,Option.map_eq_none_iff,registry_eq_none],?_⟩
  have hrecorded : Recorded us (registry us) := by
    induction us with
    | nil => exact nofun
    | cons u us ih => exact recorded_update ih u
  cases hs : registry us with
  | none =>
    rw [hs] at hrecorded
    have hempty : us.findSome? (fun u => u.perPlanResults.get? plan) = none :=
      List.findSome?_eq_none_iff.mpr fun u hu =>
        get?_eq_none.mpr (by rw [hrecorded u hu]; nofun)
    simp [planTypesForModel,lastFetch,hempty]
  | some s =>
    rw [hs] at hrecorded
    simp only [planTypesForModel,Option.map_some,Option.mem_some_iff,exists_eq_left']
    exact (hrecorded.inverse slug plan).symm.trans (hrecorded.lists slug plan)

end CodexLb.ModelRegistry
