import SqlEngine.Limits.Configuration

/-! Counting the statements of each caller in windows of time. A window starts with the first
statement after the last one ended. Windows that have ended are dropped at most once in the length
of a window. Times are nanoseconds since the limiter was made. -/

namespace SqlEngine

def nanosPerSecond : Nat := 1000000000

structure RateWindow where
  count : Nat
  start : Nat
deriving DecidableEq

structure RateLimiter where
  limit : RateLimit
  windows : List (String × RateWindow)
  lastPruned : Nat
deriving DecidableEq

namespace RateLimiter

def ofLimit (limit : RateLimit) : RateLimiter := ⟨limit, [], 0⟩

-- The literal is the first factor: as the second one it would unfold into as many sums.
def span (l : RateLimiter) : Nat := nanosPerSecond * l.limit.windowSeconds

def isRunning (l : RateLimiter) (now : Nat) (w : RateWindow) : Bool := now - w.start < l.span

def prune (l : RateLimiter) (now : Nat) : RateLimiter :=
  if now - l.lastPruned < l.span then l
  else { l with windows := l.windows.filter fun w => l.isRunning now w.2, lastPruned := now }

def window? (l : RateLimiter) (caller : String) : Option RateWindow :=
  (l.windows.find? (·.1 == caller)).map (·.2)

def windowAt (l : RateLimiter) (caller : String) (now : Nat) : RateWindow :=
  match l.window? caller with
  | some w => if l.isRunning now w then w else ⟨0, now⟩
  | none => ⟨0, now⟩

def putWindow (l : RateLimiter) (caller : String) (w : RateWindow) : RateLimiter :=
  if l.windows.any (·.1 == caller) then
    { l with windows := l.windows.map fun e => if e.1 == caller then (caller, w) else e }
  else { l with windows := l.windows ++ [(caller, w)] }

/-- Nanoseconds as seconds in double arithmetic, where whole seconds and the rest are rounded on
their own, then up to whole seconds, and at least one. -/
def retryAfter (nanoseconds : Nat) : Nat :=
  let whole := Binary64.ofNat (nanoseconds / nanosPerSecond)
  let rest := (Binary64.ofNat (nanoseconds % nanosPerSecond)).div (.ofNat nanosPerSecond)
  max 1 (min maxWord (whole.add rest).ceil.toNat)

def charge (l : RateLimiter) (caller : String) (now : Nat) : Except Failure Unit × RateLimiter :=
  let l := l.prune now
  let w := l.windowAt caller now
  if l.limit.maxQueries ≤ w.count then
    (.error (.rateLimited (retryAfter (l.span - (now - w.start)))), l.putWindow caller w)
  else (.ok (), l.putWindow caller { w with count := w.count + 1 })

def remaining (l : RateLimiter) (caller : String) (now : Nat) : Nat :=
  l.limit.maxQueries - (l.windowAt caller now).count

def tracked (l : RateLimiter) : Nat := l.windows.length

end RateLimiter

/-- What a limiter shared with other engines says about a caller. Where it cannot be reached the
windows of this engine decide alone. -/
inductive RemoteVerdict where
  | admitted
  | rejected (retryAfter : Nat)
  | unavailable
deriving DecidableEq

abbrev RemoteLimiter := String → RemoteVerdict

def noRemoteLimiter : RemoteLimiter := fun _ => .admitted

/-- Asks the shared limiter first. A caller that it rejects takes no slot here. -/
def RateLimiter.chargeThrough (remote : RemoteLimiter) (l : RateLimiter) (caller : String)
    (now : Nat) : Except Failure Unit × RateLimiter :=
  match remote caller with
  | .rejected seconds => (.error (.rateLimited seconds), l)
  | _ => l.charge caller now

end SqlEngine
