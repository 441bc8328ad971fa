import Mathlib.Data.Int.Order.Basic
import Mathlib.Tactic.Basic

/-!
# Limit kinds and limit windows

The enumerations of an API-key limit rule, the length of each window and the
loop that moves an expired `reset_at` past the current time. Naive UTC
datetimes and timedeltas are integers counting microseconds; the year range of
Python's datetime is not modelled.
-/
namespace CodexLb.LimitWindows

inductive LimitType where
  | totalTokens | inputTokens | outputTokens | costUsd | credits
  deriving DecidableEq, Repr

def LimitType.value : LimitType → String
  | .totalTokens => "total_tokens"
  | .inputTokens => "input_tokens"
  | .outputTokens => "output_tokens"
  | .costUsd => "cost_usd"
  | .credits => "credits"

inductive LimitWindow where
  | daily | weekly | monthly | fiveHours | sevenDays
  deriving DecidableEq, Repr

def LimitWindow.value : LimitWindow → String
  | .daily => "daily"
  | .weekly => "weekly"
  | .monthly => "monthly"
  | .fiveHours => "5h"
  | .sevenDays => "7d"

def hours (n : ℤ) : ℤ := n*3600000000

def days (n : ℤ) : ℤ := n*86400000000

def limitWindowDelta : LimitWindow → ℤ
  | .fiveHours => hours 5
  | .sevenDays => days 7
  | .daily => days 1
  | .weekly => days 7
  | .monthly => days 30

def nextLimitReset (now : ℤ) : LimitWindow → ℤ
  | .fiveHours => now+hours 5
  | .sevenDays => now+days 7
  | .daily => now+days 1
  | .weekly => now+days 7
  | .monthly => now+days 30

theorem limitWindowDelta_pos (w : LimitWindow) : 0 < limitWindowDelta w := by
  cases w <;> decide

/-- The loop of `advance_limit_reset`: add the window while not past `now`. -/
def advanceFrom (w : LimitWindow) (now next : ℤ) : ℤ :=
  if _ : next ≤ now then advanceFrom w now (next+limitWindowDelta w) else next
termination_by (now+1-next).toNat
decreasing_by
  have := limitWindowDelta_pos w
  omega

def advanceLimitReset (resetAt now : ℤ) (w : LimitWindow) : ℤ :=
  advanceFrom w now resetAt

theorem lt_advanceFrom (w : LimitWindow) (now next : ℤ) : now < advanceFrom w now next := by
  fun_induction advanceFrom w now next with
  | case1 next h ih => exact ih
  | case2 next h => omega

/-- A reset that is due moves strictly forward and past the current time. -/
theorem lt_advanceLimitReset (w : LimitWindow) {resetAt now : ℤ} (h : resetAt < now) :
    resetAt < advanceLimitReset resetAt now w :=
  lt_trans h (lt_advanceFrom w now resetAt)

end CodexLb.LimitWindows
