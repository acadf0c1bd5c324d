import IntuitionCore.Library.Table
import Mathlib.Algebra.Order.Ring.Int

/-!
# The rate limiter

Requests are counted in windows of a minute, for each key or address. A window starts with
the first request after the last one has passed. Times are in milliseconds.
-/

namespace KgApi

structure RateLimitDecision where
  allowed : Bool
  limit : Option ℤ
  remaining : Option ℤ
  resetAtMs : ℕ
  retryAfterSeconds : ℕ
  deriving DecidableEq, Repr

structure WindowEntry where
  count : ℕ
  resetAtMs : ℕ
  deriving DecidableEq, Repr

/-- The windows of the callers. -/
abbrev RateLimiter := Table String WindowEntry

namespace RateLimiter

def windowMs : ℕ := 60000

def pruneThreshold : ℕ := 10000

/-- Windows that have passed are dropped once there are many. -/
def prune (windows : RateLimiter) (nowMs : ℕ) : RateLimiter :=
  if windows.keys.card < pruneThreshold then windows
  else windows.deleteRows fun _ entry => entry.resetAtMs ≤ nowMs

/-- The window of a caller, a new one if there is none that has not passed. -/
def entryOf (windows : RateLimiter) (nowMs : ℕ) (key : String) : WindowEntry :=
  match windows.lookup key with
  | some entry => if entry.resetAtMs ≤ nowMs then ⟨0, nowMs + windowMs⟩ else entry
  | none => ⟨0, nowMs + windowMs⟩

/-- Count a request. A limit that is no number allows none. -/
def check (windows : RateLimiter) (nowMs : ℕ) (key : String) (limit : Option ℤ) :
    RateLimiter × RateLimitDecision :=
  if limit.any (· ≤ 0) then (windows, ⟨true, some 0, some 0, 0, 0⟩)
  else
    let windows := windows.prune nowMs
    let entry := windows.entryOf nowMs key
    let entry := { entry with count := entry.count + 1 }
    (windows.insert key entry,
      { allowed := limit.any ((entry.count : ℤ) ≤ ·)
        limit := limit
        remaining := limit.map fun limit => max 0 (limit - entry.count)
        resetAtMs := entry.resetAtMs
        retryAfterSeconds := max 1 ((entry.resetAtMs - nowMs + 999) / 1000) })

end RateLimiter

end KgApi
