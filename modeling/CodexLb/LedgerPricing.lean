import CodexLb.LedgerConservation
import CodexLb.PythonText
import Mathlib.Data.Rat.Floor

/-!
# What a settled request costs

The price table, the choice of the rates of a request by tier and input length,
and the cost of a request in microdollars, over exact rationals. The settlement
path builds its token counts directly, so they are not clamped: the cached count
may exceed the input count, and the input that is left to bill is then negative.
-/
namespace CodexLb.UsageLedger

structure ModelPrice where
  inputPer1m : ℚ
  outputPer1m : ℚ
  cachedInputPer1m : Option ℚ := none
  priorityMultiplier : Option ℚ := none
  priorityInputPer1m : Option ℚ := none
  priorityOutputPer1m : Option ℚ := none
  priorityCachedInputPer1m : Option ℚ := none
  flexInputPer1m : Option ℚ := none
  flexOutputPer1m : Option ℚ := none
  flexCachedInputPer1m : Option ℚ := none
  longContextThresholdTokens : Option ℚ := none
  longContextInputPer1m : Option ℚ := none
  longContextOutputPer1m : Option ℚ := none
  longContextCachedInputPer1m : Option ℚ := none

structure UsageTokens where
  inputTokens : ℚ
  outputTokens : ℚ
  cachedInputTokens : ℚ

namespace ModelPrice

/-- Prices of input, cached input and output, in this order here and below. -/
def base (i c o : ℚ) : ModelPrice :=
  {inputPer1m := i,cachedInputPer1m := some c,outputPer1m := o}

def priority (i c o : ℚ) (p : ModelPrice) : ModelPrice :=
  {p with
    priorityInputPer1m := some i
    priorityCachedInputPer1m := some c
    priorityOutputPer1m := some o}

def flex (i c o : ℚ) (p : ModelPrice) : ModelPrice :=
  {p with
    flexInputPer1m := some i
    flexCachedInputPer1m := some c
    flexOutputPer1m := some o}

end ModelPrice

def defaultPricingModels : List (String × ModelPrice) :=
  [("gpt-5.5",.flex 2.5 0.25 15 (.priority 12.5 1.25 75 (.base 5 0.5 30))),
   ("gpt-5.5-pro",
    {inputPer1m := 30, outputPer1m := 180, flexInputPer1m := some 15, flexOutputPer1m := some 90}),
   ("gpt-5.4",
    {ModelPrice.priority 5 0.5 30 (.flex 1.25 0.125 7.5 (.base 2.5 0.25 15)) with
     longContextThresholdTokens := some 272000, longContextInputPer1m := some 5,
     longContextCachedInputPer1m := some 0.5, longContextOutputPer1m := some 22.5}),
   ("gpt-5.4-mini",.flex 0.375 0.0375 2.25 (.base 0.75 0.075 4.5)),
   ("gpt-5.4-nano",.flex 0.1 0.01 0.625 (.base 0.2 0.02 1.25)),
   ("gpt-5.4-pro",
    {inputPer1m := 30, outputPer1m := 180, flexInputPer1m := some 15, flexOutputPer1m := some 90,
     longContextThresholdTokens := some 272000, longContextInputPer1m := some 60,
     longContextOutputPer1m := some 270}),
   ("gpt-5.3-codex",.priority 3.5 0.35 28 (.base 1.75 0.175 14)),
   ("gpt-5.3",.base 1.75 0.175 14),
   ("gpt-5.3-chat-latest",.base 1.75 0.175 14),
   ("gpt-5.2",
    {ModelPrice.flex 0.875 0.0875 7 (.base 1.75 0.175 14) with priorityMultiplier := some 2}),
   ("gpt-5.2-chat-latest",.base 1.75 0.175 14),
   ("gpt-5.1",
    {ModelPrice.flex 0.625 0.0625 5 (.base 1.25 0.125 10) with priorityMultiplier := some 2}),
   ("gpt-5.1-chat-latest",.base 1.25 0.125 10),
   ("gpt-5",{ModelPrice.flex 0.625 0.0625 5 (.base 1.25 0.125 10) with priorityMultiplier := some 2}),
   ("gpt-5-chat-latest",.base 1.25 0.125 10),
   ("gpt-5.2-codex",.priority 3.5 0.35 28 (.base 1.75 0.175 14)),
   ("gpt-5.1-codex-max",.priority 2.5 0.25 20 (.base 1.25 0.125 10)),
   ("gpt-5.1-codex-mini",.base 0.25 0.025 2),
   ("gpt-5.1-codex",.priority 2.5 0.25 20 (.base 1.25 0.125 10)),
   ("gpt-5-codex",.priority 2.5 0.25 20 (.base 1.25 0.125 10)),
   ("gpt-image-2",.base 5 2 30),("gpt-image-1.5",.base 5 2 30),("gpt-image-1",.base 5 2 30),
   ("gpt-image-1-mini",.base 5 2 30)]

def defaultModelAliases : List (String × String) :=
  [("gpt-5.5-pro*","gpt-5.5-pro"),("gpt-5.5*","gpt-5.5"),("gpt-5.4-pro*","gpt-5.4-pro"),
   ("gpt-5.4-mini*","gpt-5.4-mini"),("gpt-5.4-nano*","gpt-5.4-nano"),("gpt-5.4*","gpt-5.4"),
   ("gpt-5.3-codex*","gpt-5.3-codex"),("gpt-5.3-chat-latest*","gpt-5.3-chat-latest"),
   ("gpt-5.2-codex*","gpt-5.2-codex"),("gpt-5.2-chat-latest*","gpt-5.2-chat-latest"),
   ("gpt-5.3*","gpt-5.3"),("gpt-5.1-chat-latest*","gpt-5.1-chat-latest"),("gpt-5.2*","gpt-5.2"),
   ("gpt-5-chat-latest*","gpt-5-chat-latest"),("gpt-5.1*","gpt-5.1"),("gpt-5*","gpt-5"),
   ("gpt-5.1-codex-max*","gpt-5.1-codex-max"),("gpt-5.1-codex-mini*","gpt-5.1-codex-mini"),
   ("gpt-5.1-codex*","gpt-5.1-codex"),("gpt-5-codex*","gpt-5-codex"),
   ("gpt-image-2*","gpt-image-2"),("gpt-image-1.5*","gpt-image-1.5"),
   ("gpt-image-1-mini*","gpt-image-1-mini"),("gpt-image-1*","gpt-image-1")]

/-- No name or tier that is looked for has a letter that is the lower case of a
character outside of ASCII. -/
def lower (s : String) : String := String.ofList (s.toList.map Char.toLower)

/-- A pattern of the table is a plain text and a star. -/
def fnmatchcase (name pattern : String) : Bool := pattern.toList.dropLast.isPrefixOf name.toList

/-- The first of the longest patterns that match. -/
def resolveModelAlias (model : String) : Option String :=
  if model = "" then none else
  (defaultModelAliases.foldl (fun best q =>
    if fnmatchcase (lower model) (lower q.1) &&
      best.all (fun (b : String × String) => b.1.length < q.1.length) then some q else best)
    none).map Prod.snd

def getPricingForModel (model : String) : Option (String × ModelPrice) :=
  if model = "" then none else
  match defaultPricingModels.find? fun q => lower q.1 = lower model with
  | some q => some q
  | none =>
    match resolveModelAlias (lower model) with
    | none => none
    | some a => defaultPricingModels.find? fun q => lower q.1 = lower a

def normalizeServiceTier (tier : Option String) : Option String :=
  (tier.map fun t => lower (String.ofList (PythonText.strip t.toList))).filter (· ≠ "")

def usesPriorityTier (tier : Option String) : Bool :=
  (normalizeServiceTier tier).any (· ∈ ["priority","fast"])

def usesFlexTier (tier : Option String) : Bool := normalizeServiceTier tier = some "flex"

structure Rates where
  input : ℚ
  cached : ℚ
  output : ℚ
  deriving DecidableEq

namespace ModelPrice

variable (p : ModelPrice)

def isLongContext (u : UsageTokens) : Bool :=
  p.longContextThresholdTokens.any (· < u.inputTokens) && p.longContextInputPer1m.isSome &&
    p.longContextOutputPer1m.isSome

def baseRates : Rates :=
  ⟨p.inputPer1m,p.cachedInputPer1m.getD p.inputPer1m,p.outputPer1m⟩

def priorityRates : Option Rates :=
  match p.priorityInputPer1m,p.priorityOutputPer1m with
  | some i,some o => some ⟨i,p.priorityCachedInputPer1m.getD i,o⟩
  | _,_ => p.priorityMultiplier.map fun m =>
    ⟨p.baseRates.input*m,p.baseRates.cached*m,p.baseRates.output*m⟩

def flexRates (long : Bool) : Option Rates :=
  match p.flexInputPer1m,p.flexOutputPer1m with
  | some i,some o =>
    let cached := p.flexCachedInputPer1m.getD i
    some (if long then ⟨i*2,cached*2,o*1.5⟩ else ⟨i,cached,o⟩)
  | _,_ => none

def longRates : Rates :=
  match p.longContextInputPer1m,p.longContextOutputPer1m with
  | some i,some o => ⟨i,p.longContextCachedInputPer1m.getD i,o⟩
  | _,_ => p.baseRates

def rates (priority flex long : Bool) : Rates :=
  ((if priority then p.priorityRates else none).or
    (if flex then p.flexRates long else none)).getD (if long then p.longRates else p.baseRates)

end ModelPrice

def effectiveRates (u : UsageTokens) (p : ModelPrice) (tier : Option String) : Rates :=
  p.rates (usesPriorityTier tier) (usesFlexTier tier) (p.isLongContext u)

/-- For token counts that were built by the caller, which are not normalised. -/
def calculateCostFromUsage (u : UsageTokens) (p : ModelPrice) (tier : Option String) : ℚ :=
  let r := effectiveRates u p tier
  (u.inputTokens-u.cachedInputTokens)/1000000*r.input+u.cachedInputTokens/1000000*r.cached+
    u.outputTokens/1000000*r.output

/-- `int` drops the fraction. -/
def truncate (x : ℚ) : ℤ := if 0 ≤ x then ⌊x⌋ else ⌈x⌉

def calculateCostMicrodollars : Pricing := fun model i o c tier =>
  match getPricingForModel model with
  | none => 0
  | some q => truncate (calculateCostFromUsage ⟨i,o,c⟩ q.2 tier*1000000)

/-- Cached input is never dearer than input, nor below a tenth of it. -/
def Rates.Fair (r : Rates) : Prop :=
  0 ≤ r.output ∧ 0 ≤ r.cached ∧ r.cached ≤ r.input ∧ r.input ≤ 10*r.cached

instance : DecidablePred Rates.Fair := fun _ => inferInstanceAs (Decidable (_ ∧ _ ∧ _ ∧ _))

/-- Both input rates stay or both double. -/
def Rates.Dearer (r r' : Rates) : Prop := r.output ≤ r'.output ∧
  (r'.input = r.input ∧ r'.cached = r.cached ∨ r'.input = 2*r.input ∧ r'.cached = 2*r.cached)

instance (r r' : Rates) : Decidable (r.Dearer r') := inferInstanceAs (Decidable (_ ∧ _))

theorem table_rates : ∀ q ∈ defaultPricingModels, ∀ priority flex long : Bool,
    (q.2.rates priority flex long).Fair ∧
      (q.2.rates priority flex false).Dearer (q.2.rates priority flex true) := by
  decide +kernel

variable {q : String × ModelPrice}

theorem mem_of_getPricingForModel {model : String} (h : getPricingForModel model = some q) :
    q ∈ defaultPricingModels := by
  unfold getPricingForModel at h
  split_ifs at h
  cases hfind : defaultPricingModels.find? fun q => lower q.1 = lower model with
  | some p =>
    simp only [hfind] at h
    exact Option.some.inj h ▸ List.mem_of_find?_eq_some hfind
  | none =>
    simp only [hfind] at h
    cases halias : resolveModelAlias (lower model) with
    | none => simp [halias] at h
    | some a =>
      simp only [halias] at h
      exact List.mem_of_find?_eq_some h

theorem effectiveRates_dearer (hq : q ∈ defaultPricingModels) {u v : UsageTokens}
    (h : u.inputTokens ≤ v.inputTokens) {tier : Option String} :
    (effectiveRates u q.2 tier).Dearer (effectiveRates v q.2 tier) := by
  have hrefl (r : Rates) : r.Dearer r := ⟨le_rfl,.inl ⟨rfl,rfl⟩⟩
  unfold effectiveRates
  cases hu : q.2.isLongContext u with
  | false =>
    cases q.2.isLongContext v with
    | false => exact hrefl _
    | true => exact (table_rates q hq _ _ true).2
  | true =>
    have hv : q.2.isLongContext v = true := by
      simp only [ModelPrice.isLongContext,Bool.and_eq_true,Option.any_eq_true,
        decide_eq_true_eq] at hu ⊢
      obtain ⟨⟨⟨t,ht,hlt⟩,hi⟩,ho⟩ := hu
      exact ⟨⟨⟨t,ht,hlt.trans_le h⟩,hi⟩,ho⟩
    rw [hv]
    exact hrefl _

def Rates.amount (r : Rates) (i o c : ℚ) : ℚ := (i-c)*r.input+c*r.cached+o*r.output

section Amount
variable {r r' : Rates} {i i' o o' c : ℚ}

theorem Rates.Fair.input_nonneg (hr : r.Fair) (hc : 0 ≤ c) (h : 9*c ≤ 10*i) :
    0 ≤ (i-c)*r.input+c*r.cached := by
  obtain ⟨-,hcached,hle,hten⟩ := hr
  have hrate := mul_nonneg hc (sub_nonneg.mpr hten)
  have hcount := mul_nonneg (hcached.trans hle) (sub_nonneg.mpr h)
  linarith

theorem Rates.Fair.amount_nonneg (hr : r.Fair) (hc : 0 ≤ c) (ho : 0 ≤ o) (h : 9*c ≤ 10*i) :
    0 ≤ r.amount i o c := add_nonneg (hr.input_nonneg hc h) (mul_nonneg ho hr.1)

theorem Rates.Fair.amount_mono (hr : r.Fair) (hd : r.Dearer r') (hc : 0 ≤ c) (ho : 0 ≤ o)
    (h : 9*c ≤ 10*i) (hi : i ≤ i') (hoo : o ≤ o') : r.amount i o c ≤ r'.amount i' o' c := by
  have hbase := hr.input_nonneg hc (h.trans (by linarith : 10*i ≤ 10*i'))
  have hgrow := mul_nonneg (hr.2.1.trans hr.2.2.1) (sub_nonneg.mpr hi)
  have hout : o*r.output ≤ o'*r'.output := mul_le_mul hoo hd.1 hr.1 (ho.trans hoo)
  unfold amount
  rcases hd.2 with ⟨hin,hca⟩ | ⟨hin,hca⟩
  · rw [hin,hca]
    linarith
  · rw [hin,hca]
    linarith

variable {x : ℚ}

theorem truncate_nonneg (h : 0 ≤ x) : 0 ≤ truncate x := by
  rw [truncate,if_pos h]
  exact Int.floor_nonneg.mpr h

theorem truncate_mono {y : ℚ} (hx : 0 ≤ x) (h : x ≤ y) : truncate x ≤ truncate y := by
  rw [truncate,truncate,if_pos hx,if_pos (hx.trans h)]
  exact Int.floor_le_floor h

end Amount

section Cost
variable {model : String} {q : String × ModelPrice} {i i' o o' c : ℕ} {tier : Option String}

theorem cost_eq (h : getPricingForModel model = some q) {i o c : ℤ} :
    calculateCostMicrodollars model i o c tier =
      truncate ((effectiveRates ⟨i,o,c⟩ q.2 tier).amount i o c) := by
  simp only [calculateCostMicrodollars,h,calculateCostFromUsage,Rates.amount]
  ring_nf

theorem cost_mono (hq : getPricingForModel model = some q) (h : 9*c ≤ 10*i) (hi : i ≤ i')
    (ho : o ≤ o') :
    0 ≤ calculateCostMicrodollars model i o c tier ∧
      calculateCostMicrodollars model i o c tier ≤ calculateCostMicrodollars model i' o' c tier := by
  have hmem := mem_of_getPricingForModel hq
  have hcast : (9*(c : ℤ) : ℚ) ≤ 10*((i : ℤ) : ℚ) := by exact_mod_cast h
  have hle : ((i : ℤ) : ℚ) ≤ ((i' : ℤ) : ℚ) := by exact_mod_cast hi
  have hfair := (table_rates q hmem (usesPriorityTier tier) (usesFlexTier tier)
    (q.2.isLongContext ⟨(i : ℤ),(o : ℤ),(c : ℤ)⟩)).1
  rw [cost_eq hq,cost_eq hq]
  have hnonneg := hfair.amount_nonneg (i := (i : ℤ)) (o := (o : ℤ)) (c := (c : ℤ))
    (by exact_mod_cast c.zero_le) (by exact_mod_cast o.zero_le) hcast
  exact ⟨truncate_nonneg hnonneg,truncate_mono hnonneg (hfair.amount_mono
    (effectiveRates_dearer hmem hle) (by exact_mod_cast c.zero_le)
    (by exact_mod_cast o.zero_le) hcast hle (by exact_mod_cast ho))⟩

theorem priority_rates : ∀ long, (getPricingForModel "gpt-5.5").map (fun q => q.2.rates
    (usesPriorityTier (some "priority")) (usesFlexTier (some "priority")) long) =
      some ⟨12.5,1.25,75⟩ := by
  decide +kernel

/-- The rates with the largest discount for cached input. -/
theorem priority_cost_neg (h : 10*i < 9*c) :
    calculateCostMicrodollars "gpt-5.5" i (0 : ℕ) c (some "priority") < 0 := by
  cases hq : getPricingForModel "gpt-5.5" with
  | none => simpa [hq] using priority_rates true
  | some q =>
    have hr := priority_rates (q.2.isLongContext ⟨(i : ℤ),((0 : ℕ) : ℤ),(c : ℤ)⟩)
    rw [hq,Option.map_some,Option.some.injEq] at hr
    have hle : ((10*i+1 : ℕ) : ℚ) ≤ ((9*c : ℕ) : ℚ) := by exact_mod_cast h
    push_cast at hle
    have hamount : (⟨12.5,1.25,75⟩ : Rates).amount (i : ℤ) ((0 : ℕ) : ℤ) (c : ℤ) ≤ -1 := by
      simp only [Rates.amount,Int.cast_natCast,Nat.cast_zero]
      linarith
    rw [cost_eq hq,effectiveRates,hr,truncate,if_neg (by linarith)]
    have hceil := Int.ceil_le.mpr (hamount.trans_eq (by norm_num : (-1 : ℚ) = ((-1 : ℤ) : ℚ)))
    omega

end Cost

def othersCharge (s : Store) (id : String) (l : ApiKeyLimit) : ℤ :=
  s.reservations.total fun r => if r.id = id then 0 else r.items.total (itemCharge l)

theorem Books.othersCharge_le {s : Store} {l : ApiKeyLimit} (h : Books s) (hl : l ∈ s.limits.rows)
    (id : String) : othersCharge s id l ≤ l.currentValue := by
  rw [h.balanced l hl]
  refine List.sum_le_sum fun r hr => ?_
  split_ifs
  · exact r.items.total_nonneg fun j hj => itemCharge_nonneg h hr l hj
  · exact le_rfl

/-- The cost of a request with `i` input tokens, `c` of them cached, is not negative and does not
decrease when more output or more uncached input is billed. A settlement at this cost leaves every
counter at or above what the other reservations charge to it. -/
def BilledFairly (i c : ℕ) : Prop :=
  (∀ model, getPricingForModel model ≠ none → ∀ (tier : Option String) (o : ℕ),
    0 ≤ calculateCostMicrodollars model i o c tier ∧
    (∀ o' : ℕ, o ≤ o' → calculateCostMicrodollars model i o c tier ≤
      calculateCostMicrodollars model i o' c tier) ∧
    ∀ i' : ℕ, i ≤ i' → calculateCostMicrodollars model i o c tier ≤
      calculateCostMicrodollars model i' o c tier) ∧
  ∀ (s : Store) (q : SettleRequest) (status : ReservationStatus) (now : ℤ), Books s → Settled s →
    status.Terminal → q.inputTokens.getD 0 = i → 0 ≤ q.outputTokens.getD 0 →
    q.cachedInputTokens.getD 0 = c →
    ∀ l ∈ (settle calculateCostMicrodollars q status now s).store.limits.rows,
      othersCharge (settle calculateCostMicrodollars q status now s).store q.reservationId l ≤
        l.currentValue

/-- Cached input is at most ten ninths of the input. -/
theorem billedFairly_iff (i c : ℕ) : BilledFairly i c ↔ 9*c ≤ 10*i := by
  constructor
  · intro h
    by_contra hlt
    have hpriced : getPricingForModel "gpt-5.5" ≠ none := by
      intro hnone
      simpa [hnone] using priority_rates true
    exact absurd (h.1 "gpt-5.5" hpriced (some "priority") 0).1
      (not_le.mpr (priority_cost_neg (by omega)))
  · intro h
    refine ⟨fun model hpriced tier o => ?_,fun s q status now hb hs ht hi ho hc l hl => ?_⟩
    · obtain ⟨q,hq⟩ := Option.ne_none_iff_exists'.mp hpriced
      exact ⟨(cost_mono hq h le_rfl le_rfl).1,
        fun o' ho => (cost_mono hq h le_rfl ho).2,
        fun i' hi => (cost_mono hq h hi le_rfl).2⟩
    · have hcost : 0 ≤ q.cost calculateCostMicrodollars := by
        obtain ⟨o,ho⟩ := Int.eq_ofNat_of_zero_le ho
        rw [SettleRequest.cost,hi,ho,hc]
        cases hq : getPricingForModel q.model with
        | none => simp [calculateCostMicrodollars,hq]
        | some p => exact (cost_mono hq h le_rfl le_rfl).1
      have hactual := SettleRequest.actual_nonneg (q := q) ⟨by omega,ho,by omega,hcost⟩
      exact ((settle_closing _ q status ht now s).sound hb hs (fun i => hactual i.limitType)
        (by simp)).books.othersCharge_le hl q.reservationId

/-- A cached count beyond the input count takes money back. -/
theorem cached_beyond_input_credits : (getPricingForModel "gpt-5.5").isSome ∧
      calculateCostMicrodollars "gpt-5.5" 0 0 1000 none = -4500 := by
  decide +kernel

end CodexLb.UsageLedger
