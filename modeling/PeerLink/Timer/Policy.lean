/-! # When a timer fires again

* `FiringPolicy.nextRun`: the next run of a periodic timer whose firing has ended.
-/

namespace PeerLink
set_option autoImplicit false

/-- What a periodic timer does about runs that it missed: leave them out, or make up for them. -/
inductive FiringPolicy
  | skip
  | catchUp
deriving DecidableEq

/-- The next run after a firing that was meant for `nominal` and has ended at `now`. -/
def FiringPolicy.nextRun (p : FiringPolicy) (nominal interval now : Nat) : Nat :=
  let next := nominal + interval
  if now < next then next
  else
    match p with
    | skip => now + interval
    | catchUp => next

namespace FiringPolicy

theorem nextRun_of_lt (p : FiringPolicy) {nominal interval now : Nat}
    (h : now < nominal + interval) : p.nextRun nominal interval now = nominal + interval := by
  simp [nextRun, h]

variable (p : FiringPolicy) {nominal interval now : Nat}

theorem le_nextRun : nominal + interval ≤ p.nextRun nominal interval now := by
  unfold nextRun
  cases p <;> dsimp only <;> split <;> omega

theorem nextRun_catchUp : catchUp.nextRun nominal interval now = nominal + interval :=
  ite_self _

theorem lt_nextRun_skip (h : 0 < interval) : now < skip.nextRun nominal interval now := by
  unfold nextRun
  dsimp only
  split <;> omega

theorem nextRun_le (h : nominal ≤ now) : p.nextRun nominal interval now ≤ now + interval := by
  unfold nextRun
  cases p <;> dsimp only <;> split <;> omega

end FiringPolicy

end PeerLink
