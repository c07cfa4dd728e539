/-! Binary search in an ascending list. -/

namespace SqlEngine.Index

inductive Spot where
  | found (i : Nat)
  | between (i : Nat)
deriving DecidableEq, Repr

def Spot.child : Spot → Nat
  | found i => i + 1
  | between i => i

/-- Halves the list until one key is left; `side` tells how a key of the list compares with the one
that is looked for, and `base` counts the keys already left behind. -/
def locateFrom {κ : Type} (side : κ → Ordering) : (fuel base : Nat) → List κ → Spot
  | _, base, [] => .between base
  | _, base, [k] =>
    match side k with
    | .eq => .found base
    | .lt => .between (base + 1)
    | .gt => .between base
  | 0, base, _ => .between base
  | fuel + 1, base, ks =>
    let half := ks.length / 2
    match ks[half]? with
    | some k =>
      if side k = .gt then locateFrom side fuel base (ks.take (ks.length - half))
      else locateFrom side fuel (base + half) (ks.drop half)
    | none => .between base

def locate {κ : Type} (side : κ → Ordering) (ks : List κ) : Spot :=
  locateFrom side ks.length 0 ks

end SqlEngine.Index
