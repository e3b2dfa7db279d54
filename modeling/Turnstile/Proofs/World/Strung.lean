import Turnstile.Proofs.Condition.Strings
import Turnstile.Proofs.Policy.Locks
import Turnstile.Proofs.World.Roll

/-! Who waits on a condition in the course of a run: from the step that puts the node on the condition until
it is signalled or gives up, it stays in the chain, in the order in which the waits began. -/
namespace Turnstile

open WaitQueue (Shaped Alike Moves)

namespace Position

def begins (s : SyncId) : Position → Option ConditionId
  | .call (.wait t) (.answered answer) =>
    if t.sync = s ∧ grants answer = true then some t.condition else none
  | _ => none

theorem begins_eq {s : SyncId} {p : Position} {c : ConditionId} (h : p.begins s = some c) :
    ∃ t v, p = .call (.wait t) (.answered (.ok v)) ∧ t.sync = s ∧ t.condition = c ∧ v.isGrant = true := by
  unfold begins at h
  split at h
  · rename_i t answer
    split at h
    · rename_i here
      cases answer with
      | error => simp [grants] at here
      | ok v => exact ⟨t, v, rfl, here.1, Option.some.inj h, by simpa [grants] using here.2⟩
    · simp at h
  · simp at h

end Position

namespace World

/-- The node of whoever begins to wait on the condition by the event. -/
def begun (s : SyncId) (c : ConditionId) (w : World) : Event → Option NodeId
  | .step a =>
    match (w.actor a).activity with
    | .busy .running p =>
      if p.begins s = some c then ((w.happen (.step a)).actor a).position.bind fun p => (p.seat s).node
      else none
    | _ => none
  | _ => none

/-- The nodes with which actors have begun to wait on each condition since the start of a run, in order. -/
def begunSince (s : SyncId) (w : World) (events : List Event) : ConditionId → List NodeId :=
  World.collect (fun w e ns c => ns c ++ (w.begun s c e).toList) w events fun _ => []

/-- Nodes are noted in the order in which they were made, and each with one condition. -/
structure Noted (ns : ConditionId → List NodeId) (bound : Nat) : Prop where
  order : ∀ c, (ns c).Pairwise (· < ·)
  inTable : ∀ c, ∀ n ∈ ns c, n < bound
  apart : ∀ c d n, n ∈ ns c → n ∈ ns d → c = d

/-- Each condition of the synchronizer keeps those who have begun to wait on it. -/
structure Strung (s : SyncId) (w : World) (ns : ConditionId → List NodeId) : Prop where
  keeps : ∀ c < w.conditions.size, (w.condition c).owner = s → (w.condition c).Keeps (w.queue s) (ns c)
  noted : Noted ns (w.queue s).nodes.size

section

variable {s : SyncId} {w w' : World} {ns ns' : ConditionId → List NodeId} {c : ConditionId}
  {bound bound' : Nat}

/-- Where nobody is about to put a node on a condition, nobody has begun to wait. -/
theorem begun_eq_none {e : Event}
    (h : ∀ a p, e = .step a → (w.actor a).activity = .busy .running p → p.begins s = none) :
    w.begun s c e = none := by
  cases e with
  | step a =>
    unfold begun
    dsimp only
    split
    · rename_i p running
      simp [h a p rfl running]
    · rfl
  | _ => rfl

namespace Noted

theorem mono (h : Noted ns bound) (le : bound ≤ bound') : Noted ns bound' :=
  { h with inTable := fun c n hn => Nat.lt_of_lt_of_le (h.inTable c n hn) le }

theorem add (h : Noted ns bound) (lt : bound < bound')
    (ns_eq : ∀ d, ns' d = if c = d then ns d ++ [bound] else ns d) : Noted ns' bound' := by
  have mem : ∀ d n, n ∈ ns' d ↔ n ∈ ns d ∨ (c = d ∧ n = bound) := by
    intro d n
    rw [ns_eq]
    split <;> simp_all
  constructor
  case order =>
    intro d
    rw [ns_eq]
    split
    · exact List.pairwise_append.2 ⟨h.order d, List.pairwise_singleton _ _, by simpa using h.inTable d⟩
    · exact h.order d
  case inTable =>
    intro d n hn
    rcases (mem d n).1 hn with old | ⟨-, rfl⟩
    · exact Nat.lt_trans (h.inTable d n old) lt
    · exact lt
  case apart =>
    intro d d' n hn hn'
    rcases (mem d n).1 hn with old | ⟨rfl, new⟩
    · rcases (mem d' n).1 hn' with old' | ⟨-, new⟩
      · exact h.apart d d' n old old'
      · exact absurd new (Nat.ne_of_lt (h.inTable d n old))
    · rcases (mem d' n).1 hn' with old' | ⟨rfl, -⟩
      · exact absurd new (Nat.ne_of_lt (h.inTable d' n old'))
      · rfl

end Noted

theorem conditions_create (actors tokens : Nat) (syncs : List Synchronizer) (conditions : List SyncId)
    (c : ConditionId) : (World.create actors tokens syncs conditions).condition c =
      (conditions[c]?.map fun x => ({ owner := x } : Condition)).getD default := by
  simp [World.condition, World.create, Table.get, Table.ofList]

namespace Strung

theorem create {actors tokens : Nat} {syncs : List Synchronizer} {conditions : List SyncId} :
    Strung s (World.create actors tokens syncs conditions) fun _ => [] := by
  refine ⟨fun c _ _ => ?_, fun _ => List.Pairwise.nil, by simp, by simp⟩
  have fresh : ((World.create actors tokens syncs conditions).condition c).first = none ∧
      ((World.create actors tokens syncs conditions).condition c).last = none := by
    rw [conditions_create]
    cases conditions[c]? <;> exact ⟨rfl, rfl⟩
  have empty := Condition.waiters_of_first_none ((World.create actors tokens syncs conditions).queue s) fresh.1
  exact ⟨empty.symm ▸ Condition.strings_nil fresh.1 fresh.2, by simp [empty], by simp⟩

theorem keep (h : Strung s w ns) (size : (w.queue s).nodes.size ≤ (w'.queue s).nodes.size)
    (followers : ∀ m, ((w'.queue s).node m).follower = ((w.queue s).node m).follower)
    (waits : ∀ m, m < (w.queue s).nodes.size → ((w'.queue s).node m).status = .condition →
      ((w.queue s).node m).status = .condition)
    (owner : ∀ c, (w'.condition c).owner = (w.condition c).owner)
    (table : w'.conditions.size = w.conditions.size)
    (conditions : ∀ c, (w.condition c).owner = s → w'.condition c = w.condition c) : Strung s w' ns := by
  refine ⟨fun c listed mine => ?_, h.noted.mono size⟩
  rw [owner] at mine
  rw [conditions c mine]
  exact (h.keeps c (table ▸ listed) mine).keep size (fun m _ => followers m)
    fun m hm => waits m (h.noted.inTable c m hm)

/-- The chain of each condition, also of one that was never made. -/
theorem strings (h : Strung s w ns) (mine : (w.condition c).owner = s) :
    (w.condition c).Strings (w.queue s) ((w.condition c).waiters (w.queue s)) ∧
      (w.condition c).waiters (w.queue s) ⊆ ns c := by
  by_cases listed : c < w.conditions.size
  · exact ⟨(h.keeps c listed mine).strings, (h.keeps c listed mine).among⟩
  · have fresh : w.condition c = default := Table.get_of_size_le (Nat.not_lt.1 listed)
    have empty : (w.condition c).waiters (w.queue s) = [] := by
      rw [fresh]
      exact Condition.waiters_of_first_none _ rfl
    rw [empty, fresh]
    exact ⟨Condition.strings_nil rfl rfl, List.nil_subset _⟩

/-- Where one of the chains is tended, the others are left alone. -/
theorem tend (h : Strung s w ns) (mine : (w.condition c).owner = s) {c' : Condition} {l' : List NodeId}
    (tended : Condition.Tended (w.queue s) ((w.condition c).waiters (w.queue s)) c' (w'.queue s) l')
    (owner : ∀ c, (w'.condition c).owner = (w.condition c).owner)
    (conditions : w'.conditions = w.conditions.modify c fun _ => c') (among : l' ⊆ ns' c)
    (grown : ∀ n ∈ ns' c, n ∈ ns c ∨ n ∈ l') (others : ∀ d, c ≠ d → ns' d = ns d)
    (noted : Noted ns' (w'.queue s).nodes.size) : Strung s w' ns' := by
  refine ⟨fun d listed mine' => ?_, noted⟩
  rw [owner] at mine'
  rw [conditions, Table.size_modify] at listed
  have keeps := h.keeps d listed mine'
  rw [World.condition, conditions]
  by_cases here : c = d
  · subst here
    rw [Table.get_modify_self _ listed]
    exact keeps.tend tended (h.noted.inTable c) among grown
  · rw [Table.get_modify_of_ne _ _ here, others d here]
    refine keeps.keep tended.size (fun m hm => tended.outside m (fun hm' => here ?_) ?_)
      fun m hm => tended.waits m ?_
    · exact h.noted.apart c d m ((h.strings mine).2 hm') hm
    · exact h.noted.inTable d m hm
    · exact h.noted.inTable d m hm

/-- Where the chain loses some of its nodes, and nobody begins to wait. -/
theorem shrink (h : Strung s w ns) (mine : (w.condition c).owner = s) {c' : Condition} {l' : List NodeId}
    (tended : Condition.Tended (w.queue s) ((w.condition c).waiters (w.queue s)) c' (w'.queue s) l')
    (sub : l' ⊆ (w.condition c).waiters (w.queue s))
    (owner : ∀ c, (w'.condition c).owner = (w.condition c).owner)
    (conditions : w'.conditions = w.conditions.modify c fun _ => c') : Strung s w' ns :=
  h.tend mine tended owner conditions (fun _ hn => (h.strings mine).2 (sub hn)) (fun _ => Or.inl)
    (fun _ _ => rfl) (h.noted.mono tended.size)

end Strung

theorem follower_turned (q : WaitQueue) (c : Queued) (v : Verdict) (m : NodeId) :
    ((turned q c v).1.node m).follower = (q.node m).follower := by
  unfold turned
  split <;> simp

variable {a : ActorId}

/-- Whoever has been found to hold the synchronizer puts a new node on the condition. -/
theorem step_enters (inTable : s < w.syncs.size) {t : WaitTerms} {v : Verdict}
    (running : (w.actor a).activity = .busy .running (.call (.wait t) (.answered (.ok v))))
    (here : t.sync = s) (granted : v.isGrant = true) :
    (w.happen (.step a)).queue s = ((w.condition t.condition).join (w.queue s) a).2.1 ∧
      ((w.happen (.step a)).conditions = w.conditions.modify t.condition fun _ =>
        ((w.condition t.condition).join (w.queue s) a).1) ∧
      ∀ c, w.begun s c (.step a) = if t.condition = c then some (w.queue s).nodes.size else none := by
  subst here
  have next : w.stride a (.call (.wait t) (.answered (.ok v))) = w.enterCondition a t := by
    simp [stride, Position.readsClock, advance, callHook, resolve, granted, resolveGrant]
  obtain ⟨saved, goes⟩ : ∃ saved, (w.enterCondition a t).2 = .goes (.call (.letGo t
      ((w.condition t.condition).join (w.queue t.sync) a).2.2 saved) .arriving) := ⟨_, rfl⟩
  have activity := activity_step running
  rw [next, goes, (Condition.size_join _ _ _).1] at activity
  refine ⟨?_, ?_, fun c => ?_⟩
  · rw [World.happen, step_eq running, next]
    exact queue_setQueue_self inTable _
  · rw [World.happen, step_eq running, next]
    rfl
  · have position : ((w.happen (.step a)).actor a).position = some _ := Actor.position_of_busy activity
    unfold begun
    simp [running, position, Position.begins, grants, granted, Position.seat, Stage.granted, Seat.node]

theorem Strung.enter (h : Strung s w ns) (hw : InOrder s w) {t : WaitTerms} {v : Verdict}
    (running : (w.actor a).activity = .busy .running (.call (.wait t) (.answered (.ok v))))
    (here : t.sync = s) (granted : v.isGrant = true) :
    Strung s (w.happen (.step a)) fun c => ns c ++ (w.begun s c (.step a)).toList := by
  have mine : (w.condition t.condition).owner = s := here ▸ hw.tasked.owner running rfl
  obtain ⟨strings, among⟩ := h.strings mine
  obtain ⟨queue, conditions, begun⟩ := step_enters hw.seated.inTable running here granted
  obtain ⟨l', new, tended⟩ := strings.join a
  have size := (Condition.size_join (w.condition t.condition) (w.queue s) a).2
  rw [← queue] at tended size
  have owner := hw.tasked.owner_happen hw.seated.inTable (.step a)
  have mem : ∀ n, n ∈ ns t.condition ++ (w.begun s t.condition (.step a)).toList ↔
      n ∈ ns t.condition ∨ (w.queue s).nodes.size = n := by
    intro n
    rw [begun, if_pos rfl, List.mem_append, Option.mem_toList, Option.some.injEq]
  refine h.tend mine tended owner conditions (fun n hn => (mem n).2 ?_) (fun n hn => ?_)
    (fun d elsewhere => ?_) (h.noted.add (c := t.condition) (size ▸ Nat.lt_succ_self _) fun d => ?_)
  · have lt : n < (w.queue s).nodes.size + 1 := size ▸ tended.strings.inTable n hn
    exact (tended.known n hn).imp (fun old => among old) fun le => Nat.le_antisymm le (Nat.le_of_lt_succ lt)
  · exact ((mem n).1 hn).imp_right fun (eq : _ = n) => eq ▸ new
  · rw [begun, if_neg elsewhere]
    exact List.append_nil _
  · rw [begun]
    split <;> simp

/-- Whatever else happens, nobody who waits is lost. -/
theorem Strung.spare (h : Strung s w ns) (hw : InOrder s w) (e : Event)
    (others : ∀ a p, e = .step a → (w.actor a).activity = .busy .running p → p.begins s = none) :
    Strung s (w.happen e) ns := by
  have size := ((w.queues_happen e).2 s).size
  have owner := hw.tasked.owner_happen hw.seated.inTable e
  have table := hw.tasked.size_happen hw.seated.inTable e
  have waits : ∀ m, m < (w.queue s).nodes.size → (((w.happen e).queue s).node m).status = .condition →
      ((w.queue s).node m).status = .condition :=
    fun m inTable wait => ((hw.shifted e).waits m wait).resolve_right (Nat.not_le.2 inTable)
  obtain ⟨k, body, hq⟩ := hw.seated.shaped
  rcases hw.tasked.deeds hw.seated.inTable e with
    ⟨same, conditions⟩ | ⟨a, p, q', cs, rfl, running, deed, queue, conditions⟩
  · exact h.keep size (fun m => by rw [same]) waits owner table conditions
  have hp : (w.actor a).position = some p := Actor.position_of_busy running
  -- What is done to the queue alone.
  have alone : (∀ m, (q'.node m).follower = ((w.queue s).node m).follower) → cs = w.conditions →
      Strung s (w.happen (.step a)) ns := by
    rintro followers rfl
    exact h.keep size (queue ▸ followers) waits owner table fun c _ => congrArg (·.get c) conditions
  cases deed with
  | rest => exact alone (fun _ => rfl) rfl
  | join => exact alone (fun m => WaitQueue.follower_join _ _ _ _) rfl
  | ready => exact alone (fun m => WaitQueue.follower_readyToPark _ _ _) rfl
  | withdraw => exact alone (fun m => WaitQueue.follower_withdraw _ _ _) rfl
  | turn granted cut =>
    obtain ⟨k, rfl, -⟩ := hw.seated.promoted_of_cut hp rfl cut
    exact alone (fun m => by rw [WaitQueue.follower_setNext, follower_turned]) rfl
  | @finish q v q' c granted cut about =>
    obtain ⟨k, eq, -⟩ := hw.seated.promoted_of_cut hp rfl cut
    have mine := hw.tasked.owner running about
    have strings := (h.strings mine).1
    have alike := (w.conditions.get c).alike_prune q'
    rw [queue] at size waits
    have promoted := strings.tended (alike.size ▸ size)
      (fun m => by rw [eq, WaitQueue.follower_setNext, follower_turned])
      fun m inTable wait => waits m inTable ((alike.status m).trans wait)
    have pruned := promoted.trans strings promoted.strings.prune
    exact h.shrink mine (queue ▸ pruned) (List.filter_subset_self _) owner conditions
  | serve _ served =>
    rcases served with rfl | rfl
    · exact alone (fun m => WaitQueue.follower_wakeFirst _ _) rfl
    · exact alone (fun m => WaitQueue.follower_wakeShared _ _) rfl
  | drop => exact alone (fun m => WaitQueue.follower_setStatus _ _ _ _) rfl
  | transfer => exact alone (fun m => WaitQueue.follower_transferUnsignalled _ _ _) rfl
  | @enter t v granted => simpa [Position.begins, grants, granted] using others a _ rfl running
  | signal =>
    have mine := hw.tasked.owner running rfl
    rcases (h.strings mine).1.signal hq with ⟨-, -, -, tended⟩ | ⟨xs, n, ys, chain, -, -, tended⟩
    · exact h.shrink mine (queue ▸ tended) (List.nil_subset _) owner conditions
    · have sub : ys ⊆ xs ++ n :: ys := fun m hm => List.mem_append_right _ (List.mem_cons_of_mem _ hm)
      exact h.shrink mine (queue ▸ tended) (chain ▸ sub) owner conditions
  | signalAll =>
    have mine := hw.tasked.owner running rfl
    have tended := ((h.strings mine).1.signalAll hq).2
    exact h.shrink mine (queue ▸ tended) (List.nil_subset _) owner conditions

theorem Strung.happen (h : Strung s w ns) (hw : InOrder s w) (e : Event) :
    Strung s (w.happen e) fun c => ns c ++ (w.begun s c e).toList := by
  by_cases enters : ∃ a p c, e = .step a ∧ (w.actor a).activity = .busy .running p ∧ p.begins s = some c
  · obtain ⟨a, p, c, rfl, running, begins⟩ := enters
    obtain ⟨t, v, rfl, here, -, granted⟩ := Position.begins_eq begins
    exact h.enter hw running here granted
  · have others : ∀ a p, e = .step a → (w.actor a).activity = .busy .running p → p.begins s = none :=
      fun a p he running => Option.eq_none_iff_forall_ne_some.2 fun c begins =>
        enters ⟨a, p, c, he, running, begins⟩
    have none : ∀ c, w.begun s c e = Option.none := fun c => begun_eq_none others
    simpa only [none, Option.toList_none, List.append_nil] using h.spare hw e others

/-- What a signal makes of the queue and of the condition is found there after it. -/
theorem step_errand (inTable : s < w.syncs.size) (listed : c < w.conditions.size) {e : Errand} {v : Verdict}
    (running : (w.actor a).activity = .busy .running (.call (.errand s c e) (.answered (.ok v))))
    (granted : v.isGrant = true) {q : WaitQueue} {d : Condition} {as : List ActorId}
    (posts : (w.runErrand s c e).1 = ((w.setQueue s q).setCondition c d).wakeAll as) :
    (w.happen (.step a)).queue s = q ∧ (w.happen (.step a)).condition c = d := by
  have eq : w.happen (.step a) = (((w.setQueue s q).setCondition c d).wakeAll as).setActivity a .idle := by
    rw [World.happen, step_eq running, ← posts]
    simp [stride, Position.readsClock, advance, callHook, resolve, granted, resolveGrant, Next.activity]
  rw [eq]
  constructor
  · exact (queue_congr (syncs_wakeAll _ _)).trans (queue_setQueue_self inTable q)
  · change (World.wakeAll _ _).conditions.get c = d
    rw [conditions_wakeAll]
    exact Table.get_modify_self _ listed

/-- Whoever waits on a condition is in its chain, in the order in which the waits began, and a signal moves
the one that has waited longest to the end of the queue. -/
theorem signals_in_order {actors tokens : Nat} {syncs : List Synchronizer} {conditions : List SyncId}
    {x : Synchronizer} (hx : syncs[s]? = some x) (empty : x.queue = .empty) (hc : conditions[c]? = some s)
    {events : List Event} (orderly : Orderly s (World.create actors tokens syncs conditions) events) :
    let start := World.create actors tokens syncs conditions
    let w := start.after events
    let begun := begunSince s start events c
    let waiting := begun.filter fun n => ((w.queue s).node n).status = .condition
    begun.Nodup ∧ (w.condition c).Strings (w.queue s) ((w.condition c).waiters (w.queue s)) ∧
    (w.condition c).unsignalled (w.queue s) = waiting ∧
    (∀ a v, (w.actor a).activity = .busy .running (.call (.errand s c .signal) (.answered (.ok v))) →
      v.isGrant = true →
      let w' := w.happen (.step a)
      (waiting = [] → Alike (w.queue s) (w'.queue s) ∧ w'.condition c = { owner := s }) ∧
      ∀ n rest, waiting = n :: rest → Moves (w.queue s) (w'.queue s) [n] ∧
        ∃ dropped,
          (w.condition c).waiters (w.queue s) = dropped ++ n :: (w'.condition c).waiters (w'.queue s) ∧
          ∀ m ∈ dropped, ((w.queue s).node m).status ≠ .condition) ∧
    ∀ a v, (w.actor a).activity = .busy .running (.call (.errand s c .signalAll) (.answered (.ok v))) →
      v.isGrant = true →
      let w' := w.happen (.step a)
      Moves (w.queue s) (w'.queue s) waiting ∧ w'.condition c = { owner := s } := by
  intro start w begun waiting
  have hw : InOrder s w := .after hx empty orderly
  obtain ⟨strung, mine, listed⟩ : Strung s w (begunSince s start events) ∧ (w.condition c).owner = s ∧
      c < w.conditions.size := by
    refine InOrder.collect (fun w e ns c => ns c ++ (w.begun s c e).toList)
      (fun w ns => Strung s w ns ∧ (w.condition c).owner = s ∧ c < w.conditions.size) _ hx empty
      ⟨.create, ?_, ?_⟩ (fun w e ns hw ⟨h, mine, listed⟩ => ⟨h.happen hw e, ?_, ?_⟩) orderly
    · rw [conditions_create, hc]
      rfl
    · obtain ⟨lt, -⟩ := List.getElem?_eq_some_iff.1 hc
      simpa [World.create] using lt
    · rw [hw.tasked.owner_happen hw.seated.inTable, mine]
    · rwa [hw.tasked.size_happen hw.seated.inTable]
  have keeps := strung.keeps c listed mine
  have order := strung.noted.order c
  have unsignalled : (w.condition c).unsignalled (w.queue s) = waiting := keeps.unsignalled_eq order
  obtain ⟨h, body, hq⟩ := hw.seated.shaped
  refine ⟨order.imp Nat.ne_of_lt, keeps.strings, unsignalled, fun a v running granted => ?_,
    fun a v running granted => ?_⟩
  · intro w'
    obtain ⟨queue, condition⟩ := step_errand hw.seated.inTable listed running granted rfl
    rw [queue, condition]
    obtain ⟨nobody, somebody⟩ := keeps.signal order hq
    exact ⟨fun none => ⟨(nobody none).1, mine ▸ (nobody none).2⟩, somebody⟩
  · intro w'
    obtain ⟨queue, condition⟩ := step_errand hw.seated.inTable listed running granted rfl
    rw [queue, condition]
    exact ⟨unsignalled ▸ (keeps.strings.signalAll hq).1, by rw [mine]⟩

set_option maxRecDepth 8000 in
/-- Of three that wait for a signal the first is cancelled and goes back to its lock. Its node is still in the
chain when another actor signals, but the second is moved and the third stays. -/
theorem signals_in_order_cancelled :
    let start := World.create 4 1 [{ policy := .mutex, state := 0 }] [0]
    let events : List Event := .begin 0 (.acquire 0 .exclusive 1 .plain) :: List.replicate 5 (.step 0) ++
      .begin 0 (.wait 0 0 (.interruptible (some 0))) :: List.replicate 14 (.step 0) ++
      .begin 1 (.acquire 0 .exclusive 1 .plain) :: List.replicate 5 (.step 1) ++
      .begin 1 (.wait 0 0 (.interruptible none)) :: List.replicate 14 (.step 1) ++
      .begin 2 (.acquire 0 .exclusive 1 .plain) :: List.replicate 5 (.step 2) ++
      .begin 2 (.wait 0 0 (.interruptible none)) :: List.replicate 14 (.step 2) ++
      .begin 3 (.acquire 0 .exclusive 1 .plain) :: List.replicate 5 (.step 3) ++
      .cancel 0 :: .resume 0 :: .step 0 :: .begin 3 (.errand 0 0 .signal) :: List.replicate 4 (.step 3)
    let w := start.after events
    let w' := w.happen (.step 3)
    begunSince 0 start events 0 = [1, 2, 3] ∧ (w.condition 0).waiters (w.queue 0) = [1, 2, 3] ∧
      Moves (w.queue 0) (w'.queue 0) [2] ∧
      ∃ dropped, [1, 2, 3] = dropped ++ 2 :: (w'.condition 0).waiters (w'.queue 0) :=
  have begun := by decide +kernel
  have waiters := by decide +kernel
  have reached := signals_in_order (s := 0) (c := 0) rfl rfl rfl
    (Or.inr ⟨_, (Locking.create rfl (Or.inl rfl) rfl rfl rfl).honest (by decide +kernel)⟩)
  have moved := (reached.2.2.2.1 3 _ rfl rfl).2 2 [3] (by decide +kernel)
  ⟨begun, waiters, moved.1, moved.2.imp fun _ h => waiters.symm.trans h.1⟩

end

end World

end Turnstile
