import Turnstile.World.Step

/-! Who runs when: one actor at a time, each until it stops. -/
namespace Turnstile

/-- How a run of an actor came to its end. -/
inductive Stop
  | finished (v : Value)
  | standing (s : Standing)

structure Run where
  actor : ActorId
  stop : Stop

namespace World

/-- More steps than any run takes: an actor that only looks at the clock stops for spinning. -/
def longestRun : Nat := 4096

def runFor : Nat → World → ActorId → World × Stop
  | 0, w, _ => (w, .standing .running)
  | bound + 1, w, a =>
    match w.step a with
    | (w, some v) => (w, .finished v)
    | (w, none) =>
      match (w.actor a).activity with
      | .busy .running _ => runFor bound w a
      | .busy s _ => (w, .standing s)
      | .idle => (w, .finished .done)

/-- A run that has come to its end is not changed by a larger bound. -/
theorem runFor_of_le {m n : Nat} {w : World} {a : ActorId} (h : m ≤ n)
    (ended : (runFor m w a).2 ≠ .standing .running) : runFor n w a = runFor m w a := by
  induction m generalizing n w with
  | zero => exact absurd rfl ended
  | succ m ih =>
    cases n with
    | zero => omega
    | succ n =>
      simp only [runFor] at ended ⊢
      split
      · rfl
      · split
        · exact ih (by omega) (by simp_all)
        · rfl
        · rfl

def run (w : World) (a : ActorId) : World × Run :=
  let (w, stop) := runFor longestRun w a
  (w, ⟨a, stop⟩)

def perform (w : World) (a : ActorId) (op : Operation) : World × Run :=
  let w := w.setLooks a (Actor.freshLooks - op.firstLooks)
  (w.setActivity a (.busy .running (.start op))).run a

/-- Lets an actor go on from where it stopped. A park that ends uses up the permit. -/
def goOn (w : World) (a : ActorId) : World × Run :=
  match (w.actor a).activity with
  | .busy s p =>
    let w := match s with
      | .parked _ | .runnable => w.setPermit a false
      | _ => w
    (w.setActivity a (.busy .running p)).run a
  | .idle => w.run a

def isSpinning (w : World) (a : ActorId) : Bool :=
  match (w.actor a).activity with
  | .busy .spinning _ => true
  | _ => false

/-- Runs the actors that can run, first come, first served, until there are none. An actor that spins
before and after is not worth telling. -/
def settleFor : Nat → World → World × List Run
  | 0, w => (w, [])
  | bound + 1, w =>
    match w.runnable with
    | [] => (w, [])
    | a :: rest =>
      let spun := w.isSpinning a
      let (w, r) := ({ w with runnable := rest } : World).goOn a
      let told := if spun && w.isSpinning a then [] else [r]
      let (w, rs) := settleFor bound w
      (w, told ++ rs)

/-- The actors that spin and have not run yet join those that can run; then everything runs. Each
actor can wake others only a few times before it stops for good. -/
def settle (w : World) (ran : List ActorId) : World × List Run :=
  let spinners := (List.range w.actors.size).filter fun a => w.isSpinning a && !ran.contains a
  let w := { w with runnable := w.runnable ++ spinners }
  settleFor (w.runnable.length + 8 * w.actors.size + 8) w

def overdue (w : World) : List ActorId :=
  let due := (List.range w.actors.size).filterMap fun a =>
    match (w.actor a).activity with
    | .busy (.parked (some t)) _ => if t ≤ w.now then some (t, a) else none
    | _ => none
  (due.mergeSort fun x y => x.1 ≤ y.1).map Prod.snd

def elapse (w : World) (d : Span) : World :=
  let w := { w with now := w.now + d }
  w.overdue.foldl endPark w

end World

end Turnstile
