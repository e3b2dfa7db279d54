import Turnstile.Proofs.Queue.Chain
import Turnstile.Proofs.Queue.Fields

/-! The loops over a queue, one pass at a time. Where walks end, each loop is left with what the queue's
operations take from the whole walk at once. -/
namespace Turnstile

/-- The loop is left with a result. A pass leaves it or goes on to the next one. -/
inductive Ends {σ β : Type} (pass : σ → σ ⊕ β) : σ → β → Prop
  | leave {s : σ} {b : β} (h : pass s = .inr b) : Ends pass s b
  | again {s s' : σ} {b : β} (h : pass s = .inl s') (rest : Ends pass s' b) : Ends pass s b

structure Scan (γ β : Type) where
  /-- What a node adds to it, or what it settles. -/
  visit : γ → NodeId → γ ⊕ β
  /-- What it comes to when there is no further node. -/
  done : γ → β

namespace Scan

variable {γ β : Type}

/-- One pass of the loop that follows the links with a cursor. -/
def pass (s : Scan γ β) (link : NodeId → Option NodeId) :
    Option NodeId × γ → (Option NodeId × γ) ⊕ β
  | (none, g) => .inr (s.done g)
  | (some n, g) =>
    match s.visit g n with
    | .inl g => .inl (link n, g)
    | .inr b => .inr b

def along (s : Scan γ β) (g : γ) : List NodeId → β
  | [] => s.done g
  | n :: rest =>
    match s.visit g n with
    | .inl g => s.along g rest
    | .inr b => b

/-- When a walk comes to an end, so does the loop, having scanned as much of it as it wants. -/
theorem ends (s : Scan γ β) {link : NodeId → Option NodeId} {l : List NodeId} (whole : Leads link l none)
    (g : γ) : Ends (s.pass link) (l.head?, g) (s.along g l) := by
  induction l generalizing g with
  | nil => exact .leave rfl
  | cons n rest ih =>
    obtain ⟨linked, whole⟩ := whole
    rw [Option.or_none] at linked
    cases seen : s.visit g n with
    | inl g' =>
      have again : s.pass link ((n :: rest).head?, g) = .inl (rest.head?, g') := by
        simp [pass, seen, linked]
      have along : s.along g (n :: rest) = s.along g' rest := by simp [Scan.along, seen]
      exact along ▸ .again again (ih whole g')
    | inr b =>
      have along : s.along g (n :: rest) = b := by simp [Scan.along, seen]
      exact along ▸ .leave (by simp [pass, seen])

section

variable {α : Type} (stop : NodeId → Bool) (pick : NodeId → Option α)

/-- Remembers what was last picked before a node that stops the scan. -/
def last : Scan (Option α) (Option α) where
  visit best n := if stop n then .inr best else .inl ((pick n).or best)
  done best := best

def any : Scan Unit Bool where
  visit _ n := if stop n then .inr true else .inl ()
  done _ := false

def count : Scan Nat Nat where
  visit k n := .inl (if (pick n).isSome then k + 1 else k)
  done k := k

def collect : Scan (List α) (List α) where
  visit xs n := .inl (xs ++ (pick n).toList)
  done xs := xs

theorem along_last (best : Option α) (l : List NodeId) :
    (last stop pick).along best l = ((l.takeWhile (!stop ·)).filterMap pick).getLast?.or best := by
  induction l generalizing best with
  | nil => rfl
  | cons n rest ih =>
    by_cases stops : stop n
    · simp [along, last, stops]
    · have on : (last stop pick).along best (n :: rest) = (last stop pick).along ((pick n).or best) rest := by
        simp [along, last, stops]
      rw [on, ih, List.takeWhile_cons_of_pos (by simpa using stops)]
      cases picked : pick n with
      | none => simp [picked]
      | some x => simp [picked, List.getLast?_cons]

theorem along_any (l : List NodeId) : (any stop).along () l = l.any stop := by
  induction l with
  | nil => rfl
  | cons n rest ih =>
    by_cases stops : stop n
    · simp [along, any, stops]
    · simpa [along, any, stops] using ih

theorem along_count (k : Nat) (l : List NodeId) :
    (count pick).along k l = k + (l.filter fun n => (pick n).isSome).length := by
  induction l generalizing k with
  | nil => rfl
  | cons n rest ih =>
    refine (ih _).trans ?_
    cases picked : pick n with
    | none => simp [picked]
    | some x => simp [picked, Nat.add_assoc, Nat.add_comm 1]

theorem along_collect (xs : List α) (l : List NodeId) :
    (collect pick).along xs l = xs ++ l.filterMap pick := by
  induction l generalizing xs with
  | nil => exact (List.append_nil xs).symm
  | cons n rest ih =>
    refine (ih _).trans ?_
    cases picked : pick n <;> simp [picked]

end

end Scan

namespace WaitQueue

variable (q : WaitQueue)

def back (n : NodeId) : Option NodeId := (q.node n).prev

def nextAlive (n : NodeId) : Scan (Option NodeId) (Option NodeId) :=
  .last (· == n) (Option.guard fun t => (q.node t).isLive)

def nextActor : Scan (Option ActorId) (Option ActorId) :=
  .last (fun t => q.head == some t) fun t => (q.node t).actor

/-- Picks the actor of a node, of any mode or of the given one. -/
def actorOf (mode : Option Mode) (n : NodeId) : Option ActorId :=
  if mode.all (fun m => (q.node n).mode = m) then (q.node n).actor else none

variable {q}

theorem along_nextAlive (n : NodeId) : (q.nextAlive n).along none q.backward = q.scannedSuccessor n := by
  rw [nextAlive, Scan.along_last, Option.or_none, List.filterMap_eq_filter]
  rfl

theorem along_nextActor : q.nextActor.along none q.backward = q.scannedFirst := by
  rw [nextActor, Scan.along_last, Option.or_none]
  rfl

theorem filterMap_actorOf (mode : Option Mode) :
    q.backward.filterMap (q.actorOf mode) = mode.elim q.actors q.actorsIn := by
  cases mode with
  | none => rfl
  | some m =>
    rw [Option.elim, actorsIn, List.filterMap_filter]
    exact List.filterMap_congr fun n _ => by simp [actorOf]

section skipping

/-- One pass while a node that gives up looks for a live one in front: past a dead one, to the one before
it, if there is any. -/
def passDead (n : NodeId) : WaitQueue × NodeId → (WaitQueue × NodeId) ⊕ (WaitQueue × Option NodeId)
  | (q, p) =>
    if (q.node p).isLive then .inr (q, some p)
    else
      match (q.node p).prev with
      | none => .inr (q, none)
      | some p => .inl (q.setPrev n (some p), p)

/-- One pass while a node that is about to park looks for a live one before the dead one in front. -/
def passOver (n : NodeId) : WaitQueue × NodeId → (WaitQueue × NodeId) ⊕ (WaitQueue × Option NodeId)
  | (q, p) =>
    match (q.node p).prev with
    | none => .inr (q, none)
    | some p =>
      let q := q.setPrev n (some p)
      if (q.node p).isLive then .inr (q, some p) else .inl (q, p)

/-- The node linked past the dead ones among these, which stand in front of it. -/
def pastDead (q : WaitQueue) (n : NodeId) (front : List NodeId) : WaitQueue × Option NodeId :=
  let found := front.find? fun p => (q.node p).isLive
  (q.setPrev n (found.or front.getLast?), found)

variable {n p r : NodeId} {rest : List NodeId}

theorem setPrev_setPrev (q : WaitQueue) (n : NodeId) (x y : Option NodeId) :
    (q.setPrev n x).setPrev n y = q.setPrev n y :=
  congrArg (fun nodes => { q with nodes }) (q.nodes.modify_modify n _ _)

theorem setPrev_same {x : Option NodeId} (linked : (q.node n).prev = x) : q.setPrev n x = q :=
  congrArg (fun nodes => { q with nodes }) (Table.modify_same (linked ▸ rfl))

theorem isLive_setPrev (q : WaitQueue) (n m : NodeId) (x : Option NodeId) :
    ((q.setPrev n x).node m).isLive = (q.node m).isLive := by
  rw [Node.isLive, status_setPrev, Node.isLive]

theorem pastDead_live (live : (q.node p).isLive) :
    q.pastDead n (p :: rest) = (q.setPrev n (some p), some p) := by
  simp [pastDead, live]

theorem pastDead_dead (dead : ¬(q.node p).isLive) :
    q.pastDead n (p :: r :: rest) = q.pastDead n (r :: rest) := by
  simp [pastDead, dead]

theorem pastDead_end (dead : ¬(q.node p).isLive) : q.pastDead n [p] = (q.setPrev n (some p), none) := by
  simp [pastDead, dead]

/-- The node itself is not met on the way, so its own link may change meanwhile. -/
theorem prev_of_leads {x : Option NodeId} (whole : Leads q.back (p :: rest) none) (out : n ∉ p :: rest) :
    ((q.setPrev n x).node p).prev = rest.head? := by
  rw [prev_setPrev_of_ne q x fun e => out (by simp [e])]
  exact whole.1.trans (Option.or_none ..)

theorem ends_passDead (whole : Leads q.back (p :: rest) none) (out : n ∉ p :: rest) :
    Ends (passDead n) (q.setPrev n (some p), p) (q.pastDead n (p :: rest)) := by
  induction rest generalizing p with
  | nil =>
    by_cases live : (q.node p).isLive
    · exact pastDead_live live ▸ .leave (by simp [passDead, isLive_setPrev, live])
    · exact pastDead_end live ▸
        .leave (by simp [passDead, isLive_setPrev, live, prev_of_leads whole out])
  | cons r rest ih =>
    by_cases live : (q.node p).isLive
    · exact pastDead_live live ▸ .leave (by simp [passDead, isLive_setPrev, live])
    · rw [pastDead_dead live]
      refine .again ?_ (ih whole.2 (List.not_mem_of_not_mem_cons out))
      simp [passDead, isLive_setPrev, live, prev_of_leads whole out, setPrev_setPrev]

theorem ends_passOver (whole : Leads q.back (p :: rest) none) (out : n ∉ p :: rest)
    (dead : ¬(q.node p).isLive) :
    Ends (passOver n) (q.setPrev n (some p), p) (q.pastDead n (p :: rest)) := by
  induction rest generalizing p with
  | nil => exact pastDead_end dead ▸ .leave (by simp [passOver, prev_of_leads whole out])
  | cons r rest ih =>
    rw [pastDead_dead dead]
    by_cases live : (q.node r).isLive
    · refine pastDead_live live ▸ .leave ?_
      simp [passOver, prev_of_leads whole out, setPrev_setPrev, isLive_setPrev, live]
    · refine .again ?_ (ih whole.2 (List.not_mem_of_not_mem_cons out) live)
      simp [passOver, prev_of_leads whole out, setPrev_setPrev, isLive_setPrev, live]

end skipping

section

/-- One pass at the tail: whoever finds none puts the placeholder up, unless there is a head. -/
def passTail (n : NodeId) (q : WaitQueue) : WaitQueue ⊕ (WaitQueue × NodeId) :=
  match q.tail with
  | none => .inl (if q.head.isNone then q.between (some placeholder) (some placeholder) else q)
  | some last => .inr ((((q.setPrev n (some last)).between q.head (some n)).setNext last (some n)), last)

/-- A status is changed only if it still is what it was seen to be. -/
def exchange (q : WaitQueue) (n : NodeId) (seen status : Status) : Option WaitQueue :=
  if (q.node n).status = seen then some (q.setStatus n status) else none

/-- A shared release serves the head, having woken somebody or nobody so far, unless its status has changed
meanwhile. -/
def serve (q : WaitQueue) (woken : Option ActorId) : Option (WaitQueue × Option ActorId) :=
  match q.head with
  | none => some (q, woken)
  | some h =>
    if q.tail = some h then some (q, woken)
    else
      match (q.node h).status with
      | .signal => (q.exchange h .signal .initial).map fun q => q.wakeNext h
      | .initial => (q.exchange h .initial .propagate).map fun q => (q, woken)
      | _ => some (q, woken)

/-- One pass of a shared release, which goes on until the head it has served is still the head. -/
def passHead : WaitQueue × Option ActorId → (WaitQueue × Option ActorId) ⊕ (WaitQueue × Option ActorId)
  | (q, woken) =>
    match q.serve woken with
    | none => .inl (q, woken)
    | some s => if s.1.head = q.head then .inr s else .inl s

theorem ends_passTail (n : NodeId) (ends : q.head.isSome = q.tail.isSome) :
    Ends (passTail n) q (q.enqueue n) := by
  cases tail : q.tail with
  | none =>
    have head : q.head = none := by simpa [tail] using ends
    have opens : passTail n q = .inl (q.between (some placeholder) (some placeholder)) := by
      simp [passTail, tail, head]
    refine .again opens (.leave ?_)
    simp only [passTail, enqueue, opened, tail, tail_between]
    rfl
  | some last =>
    refine .leave ?_
    simp [passTail, enqueue, opened, tail]
    rfl

/-- Whether the request is answered before or while the successor is woken is the same. -/
theorem wakeNext_of_signal {h : NodeId} (asked : (q.node h).status = .signal) :
    (q.setStatus h .initial).wakeNext h = q.wakeNext h := by
  have inTable : h < q.nodes.size := by
    refine Nat.lt_of_not_le fun outside => ?_
    rw [node_of_size_le outside] at asked
    simp at asked
  have answered : ((q.setStatus h .initial).node h).status = .initial := status_setStatus_self _ inTable
  simp [wakeNext, answered, asked, Status.pending, Status.code]

theorem serve_eq (q : WaitQueue) : q.serve none = some q.wakeShared := by
  cases head : q.head with
  | none => simp [serve, wakeShared, head]
  | some h =>
    by_cases alone : q.tail = some h
    · simp [serve, wakeShared, head, alone]
    · cases status : (q.node h).status with
      | signal => simp [serve, wakeShared, head, alone, status, exchange, wakeNext_of_signal status]
      | initial => simp [serve, wakeShared, head, alone, status, exchange]
      | _ => simp [serve, wakeShared, head, alone, status]

theorem ends_passHead (q : WaitQueue) : Ends passHead (q, none) q.wakeShared :=
  .leave (by simp [passHead, serve_eq, wakeShared_head])

end

end WaitQueue

end Turnstile
