import Turnstile.Proofs.Queue.Courtesy
import Turnstile.Proofs.World.Cancellation
import Turnstile.Proofs.World.Heard

/-! What an onlooker can tell of an acquisition: what the hook has answered, how often the actor has taken the
flag of its token, and what its steps have done to the queue. -/
namespace Turnstile

open WaitQueue (Spine)

def Style.heeds : Style → Bool
  | .interruptible _ | .timed .. => true
  | _ => false

theorem Style.interruptible_patience (style : Style) (now : Moment) :
    (style.patience now).interruptible = style.heeds := by
  cases style <;> rfl

theorem Style.timed_of_isOver {style : Style} {began now : Moment} (overdue : (style.patience began).isOver now) :
    ∃ token limit deadline, style = .timed token limit ∧ limit.deadlineFrom began = some deadline ∧
      deadline ≤ now := by
  obtain ⟨deadline, eq, le⟩ := overdue
  cases style with
  | timed token limit => exact ⟨token, limit, deadline, rfl, eq, le⟩
  | _ => simp [Style.patience] at eq

/-- What an onlooker notes of an acquisition. -/
structure Account extends Diary where
  /-- When the actor set about it. -/
  began : Moment := .epoch
  /-- What the hook has answered, the last answer first. -/
  answers : List (Except SyncError Verdict) := []
  /-- How often the actor has taken the flag of its token. -/
  takes : Nat := 0
  /-- The queue before and after each of the actor's steps, the last step first. -/
  strokes : List (WaitQueue × WaitQueue) := []

namespace Account

def note (s : SyncId) (a : ActorId) (w : World) (e : Event) (d : Account) : Account :=
  match e with
  | .begin b op => if b = a ∧ (w.actor a).position = none then { task := some op } else d
  | .step b =>
    if b = a then
      { toDiary := d.toDiary.note a w e
        began :=
          match (w.actor a).activity with
          | .busy .running (.start _) => w.now
          | _ => d.began
        answers := (w.heard s e).toList.map (·.2.2) ++ d.answers
        takes := d.takes + (w.flagged d.token && !(w.step a).1.flagged d.token).toNat
        strokes := (w.queue s, (w.step a).1.queue s) :: d.strokes }
    else d
  | _ => d

def since (s : SyncId) (w : World) (a : ActorId) (events : List Event) : Account :=
  World.collect (note s a) w events {}

/-- The strokes have left the queue alone, or they have brought the node into it and done nothing to the
rest. -/
def Marks (strokes : List (WaitQueue × WaitQueue)) : Option NodeId → Prop
  | none => ∀ x ∈ strokes, x.2 = x.1
  | some n => (∃ x ∈ strokes, n ∉ x.1.live ∧ n ∈ x.2.live) ∧
      ∀ x ∈ strokes, x.2.live.filter (· ≠ n) = x.1.live.filter (· ≠ n)

def LinedUp (d : Account) (n : NodeId) : Prop := ∃ x ∈ d.strokes, n ∉ x.1.live ∧ n ∈ x.2.live

/-- Nothing is left of the acquisition. The node by which it queued is cancelled and gone, and its steps have
left all the others in their order; if it never queued, its steps have left the queue alone. -/
def LeavesNothing (d : Account) (q : WaitQueue) : Prop :=
  (∀ n, d.LinedUp n → (q.node n).status = .cancelled ∧ n ∉ q.live ∧
    ∀ x ∈ d.strokes, x.2.live.filter (· ≠ n) = x.1.live.filter (· ≠ n)) ∧
  ((∀ n, ¬d.LinedUp n) → ∀ x ∈ d.strokes, x.2 = x.1)

/-- What an acquisition may come to, by what an onlooker has noted of it. -/
inductive Outcome (s : SyncId) (d : Account) (style : Style) (w w' : World) : Value → Prop
  | granted {v last earlier} (good : v = .done ∨ v = .truth true) (answers : d.answers = last :: earlier)
      (grant : grants last = true) (refused : ∀ x ∈ earlier, x = .ok .refused)
      (back : 0 < d.takes → w'.flagged style.token = true) (heedless : style.heeds = true → d.takes = 0) :
      Outcome s d style w w' v
  | late {earlier} (overdue : (style.patience d.began).isOver w.now) (answers : d.answers = .ok .refused :: earlier)
      (refused : ∀ x ∈ earlier, x = .ok .refused) (takes : d.takes = 0)
      (leaves : d.LeavesNothing (w'.queue s)) : Outcome s d style w w' (.truth false)
  | interrupted (heeds : style.heeds = true) (refused : ∀ x ∈ d.answers, x = .ok .refused) (takes : d.takes = 1)
      (leaves : d.LeavesNothing (w'.queue s)) : Outcome s d style w w' (.failed .interrupted)
  | failed {e earlier} (answers : d.answers = .error e :: earlier) (refused : ∀ x ∈ earlier, x = .ok .refused)
      (candid : e ≠ .interrupted) (heedless : style.heeds = true → d.takes = 0)
      (leaves : d.LeavesNothing (w'.queue s)) : Outcome s d style w w' (.failed e)

variable {s : SyncId} {a : ActorId} {w : World} {e : Event} {d : Account} {p : Position}
  {mode : Mode} {arg : Int} {style : Style} {r : World × Next}

theorem toDiary_note (s : SyncId) (a : ActorId) (w : World) (e : Event) (d : Account) :
    (d.note s a w e).toDiary = d.toDiary.note a w e := by
  cases e with
  | begin b op =>
    simp only [note, Diary.note]
    split <;> rfl
  | step b =>
    by_cases mine : b = a
    · simp [note, mine]
    · simp [note, Diary.note, mine]
  | _ => rfl

theorem note_of_busy (busy : (w.actor a).position ≠ none) (other : e ≠ .step a) : d.note s a w e = d := by
  cases e with
  | begin b op => exact if_neg fun h => busy h.2
  | step b =>
    have ne : b ≠ a := fun mine => other (mine ▸ rfl)
    exact if_neg ne
  | _ => rfl

namespace Marks

variable {strokes : List (WaitQueue × WaitQueue)} {q q' : WaitQueue} {n : NodeId}

theorem still (h : Marks strokes none) (same : q' = q) : Marks ((q, q') :: strokes) none := by
  intro x hx
  rcases List.mem_cons.1 hx with rfl | hx
  · exact same
  · exact h x hx

theorem join (h : Marks strokes none) (outside : n ∉ q.live) (live : q'.live = q.live ++ [n]) :
    Marks ((q, q') :: strokes) (some n) := by
  refine ⟨⟨(q, q'), by simp, outside, by simp [live]⟩, fun x hx => ?_⟩
  rcases List.mem_cons.1 hx with rfl | hx
  · simp [live]
  · rw [h x hx]

theorem keep (h : Marks strokes (some n)) (same : q'.live.filter (· ≠ n) = q.live.filter (· ≠ n)) :
    Marks ((q, q') :: strokes) (some n) := by
  obtain ⟨⟨x, hx, joins⟩, others⟩ := h
  refine ⟨⟨x, List.mem_cons_of_mem _ hx, joins⟩, fun y hy => ?_⟩
  rcases List.mem_cons.1 hy with rfl | hy
  · exact same
  · exact others y hy

theorem withdraw (hm : Marks strokes (some n)) {h : NodeId} {body : List NodeId} (hq : Spine q h body)
    (hn : n ∈ q.live) (left : q' = (q.withdraw n).1) :
    (q'.node n).status = .cancelled ∧ n ∉ q'.live ∧ Marks ((q, q') :: strokes) (some n) := by
  obtain ⟨-, -, cancelled, live⟩ := hq.respects_withdraw hn
  rw [← left] at cancelled live
  have gone : n ∉ q.live.erase n := hq.live_nodup.not_mem_erase
  refine ⟨cancelled, live ▸ gone, hm.keep ?_⟩
  rw [live, hq.live_nodup.erase_eq_filter, List.filter_filter]
  exact List.filter_congr fun m _ => by simp

theorem eq_of_queued {m : NodeId} (hm : Marks d.strokes (some n)) (queued : d.LinedUp m) : m = n := by
  obtain ⟨x, hx, outside, joins⟩ := queued
  by_contra ne
  have others := hm.2 x hx
  have here : m ∈ x.2.live.filter (· ≠ n) := List.mem_filter.2 ⟨joins, by simpa using ne⟩
  rw [others] at here
  exact outside (List.mem_filter.1 here).1

theorem leaves_of_still (hm : Marks d.strokes none) (q : WaitQueue) : d.LeavesNothing q := by
  refine ⟨fun n queued => ?_, fun _ => hm⟩
  obtain ⟨x, hx, outside, joins⟩ := queued
  exact absurd (hm x hx ▸ joins) outside

theorem leaves (hm : Marks d.strokes (some n)) (cancelled : (q.node n).status = .cancelled)
    (gone : n ∉ q.live) : d.LeavesNothing q := by
  refine ⟨fun m queued => ?_, fun never => absurd hm.1 (never n)⟩
  obtain rfl := hm.eq_of_queued queued
  exact ⟨cancelled, gone, hm.2⟩

end Marks

/-! What a step of the actor adds to its account. -/

theorem began_note {op : Operation} (running : (w.actor a).activity = .busy .running (.start op)) :
    (d.note s a w (.step a)).began = w.now := by
  simp [note, running]

theorem began_note_of_begun (begun : ∀ op, (w.actor a).activity ≠ .busy .running (.start op)) :
    (d.note s a w (.step a)).began = d.began := by
  unfold note
  dsimp only
  rw [if_pos rfl]
  dsimp only
  split
  · rename_i op starts
    exact absurd starts (begun op)
  · rfl

theorem answers_note {site : Site} (running : (w.actor a).activity = .busy .running (.call site .entering))
    (here : site.sync = s) : (d.note s a w (.step a)).answers =
      ((w.sync s).ask site.hook a site.arg).2 :: d.answers := by
  simp only [note, if_true]
  rw [World.heard_eq_some.2 ⟨site, rfl, running, here, rfl, rfl⟩]
  simp

theorem answers_note_of_unasked
    (unasked : ∀ site, (w.actor a).activity ≠ .busy .running (.call site .entering)) :
    (d.note s a w (.step a)).answers = d.answers := by
  simp only [note, if_true]
  rw [World.unheard_of_unasked unasked]
  simp

theorem strokes_note : (d.note s a w (.step a)).strokes = (w.queue s, (w.step a).1.queue s) :: d.strokes := by
  simp [note]

theorem takes_note (task : d.task = some (.acquire s mode arg style)) :
    (d.note s a w (.step a)).takes = d.takes + 1 ∧ w.Lowers (w.step a).1 style.token ∨
    (d.note s a w (.step a)).takes = d.takes ∧ ¬w.Lowers (w.step a).1 style.token := by
  have token : d.token = style.token := by
    rw [Diary.token, task]
    rfl
  by_cases lowers : w.Lowers (w.step a).1 style.token
  · exact Or.inl ⟨by simp [note, token, lowers.1, lowers.2], lowers⟩
  · refine Or.inr ⟨?_, lowers⟩
    simp only [note, token, if_true, Nat.add_eq_left]
    rw [World.Lowers, not_and] at lowers
    cases raised : w.flagged style.token with
    | false => rfl
    | true => simpa using lowers raised

section running

variable (running : (w.actor a).activity = .busy .running p)

include running

theorem began_kept (begun : ∀ op, p ≠ .start op) : (d.note s a w (.step a)).began = d.began :=
  began_note_of_begun fun op starts => begun op (Activity.busy.inj (running.symm.trans starts)).2

theorem answers_kept (unasked : ∀ site, p ≠ .call site .entering) :
    (d.note s a w (.step a)).answers = d.answers :=
  answers_note_of_unasked fun site asking => unasked site (Activity.busy.inj (running.symm.trans asking)).2

end running

theorem takes_kept (task : d.task = some (.acquire s mode arg style)) (tokens : (w.step a).1.tokens = w.tokens) :
    (d.note s a w (.step a)).takes = d.takes :=
  ((takes_note task).resolve_left fun taken => World.not_lowers (World.flagged_of_tokens tokens) taken.2).1

theorem takes_lowered (task : d.task = some (.acquire s mode arg style))
    (lowers : w.Lowers (w.step a).1 style.token) : (d.note s a w (.step a)).takes = d.takes + 1 :=
  ((takes_note task).resolve_right fun kept => kept.2 lowers).1

/-! What the outcome tells. -/

namespace Outcome

variable {w' : World} {v : Value}

theorem refusal {answers : List (Except SyncError Verdict)} (refused : ∀ x ∈ answers, x = .ok .refused) :
    ∀ x ∈ answers, grants x = false := by
  intro x hx
  rw [refused x hx]
  rfl

/-- Without success the hook has never consented, and nothing is left. -/
theorem unsuccessful (h : d.Outcome s style w w' v) (fails : ¬(v = .done ∨ v = .truth true)) :
    (∀ x ∈ d.answers, grants x = false) ∧ d.LeavesNothing (w'.queue s) := by
  cases h with
  | granted good => exact absurd good fails
  | late _ answers refused _ leaves =>
    refine ⟨fun x hx => ?_, leaves⟩
    rw [answers] at hx
    rcases List.mem_cons.1 hx with rfl | hx
    · rfl
    · exact refusal refused x hx
  | interrupted _ refused _ leaves => exact ⟨refusal refused, leaves⟩
  | failed answers refused _ _ leaves =>
    refine ⟨fun x hx => ?_, leaves⟩
    rw [answers] at hx
    rcases List.mem_cons.1 hx with rfl | hx
    · rfl
    · exact refusal refused x hx

/-- Success is one consent of the hook, the last thing it was asked for. -/
theorem succeeds_iff (h : d.Outcome s style w w' v) : (v = .done ∨ v = .truth true) ↔
    ∃ last earlier, d.answers = last :: earlier ∧ grants last = true ∧ ∀ x ∈ earlier, grants x = false := by
  constructor
  · intro good
    cases h with
    | granted _ answers grant refused => exact ⟨_, _, answers, grant, refusal refused⟩
    | _ => simp at good
  · rintro ⟨last, earlier, answers, grant, -⟩
    by_contra fails
    have none := (h.unsuccessful fails).1 last (by simp [answers])
    simp [grant] at none

theorem put_back (h : d.Outcome s style w w' v) (good : v = .done ∨ v = .truth true) (taken : 0 < d.takes) :
    w'.flagged style.token = true := by
  cases h with
  | granted _ _ _ _ back => exact back taken
  | _ => simp at good

theorem out_of_time (h : d.Outcome s style w w' (.truth false)) :
    (∃ token limit deadline, style = .timed token limit ∧ limit.deadlineFrom d.began = some deadline ∧
      deadline ≤ w.now) ∧ d.answers.head? = some (.ok .refused) ∧ d.takes = 0 := by
  cases h with
  | granted good => simp at good
  | late overdue answers _ takes => exact ⟨Style.timed_of_isOver overdue, by simp [answers], takes⟩

/-- Cancelled are those that heed it, and have taken the flag once. -/
theorem interrupted_iff (h : d.Outcome s style w w' v) :
    v = .failed .interrupted ↔ style.heeds = true ∧ d.takes = 1 := by
  constructor
  · rintro rfl
    cases h with
    | granted good => simp at good
    | interrupted heeds _ takes => exact ⟨heeds, takes⟩
    | failed _ _ candid => exact absurd rfl candid
  · rintro ⟨heeds, taken⟩
    cases h with
    | interrupted => rfl
    | granted _ _ _ _ _ heedless | failed _ _ _ heedless => simp [heedless heeds] at taken
    | late _ _ _ takes => simp [takes] at taken

theorem error (h : d.Outcome s style w w' v) :
    ∀ e, v = .failed e → e ≠ .interrupted → d.answers.head? = some (.error e) := by
  rintro e rfl other
  cases h with
  | granted good => simp at good
  | interrupted => exact absurd rfl other
  | failed answers => simp [answers]

theorem told (h : d.Outcome s style w w' v) :
    (v = .done ∨ v = .truth true) ∨ v = .truth false ∨ ∃ e, v = .failed e := by
  cases h with
  | granted good => exact Or.inl good
  | late => exact Or.inr (Or.inl rfl)
  | interrupted | failed => exact Or.inr (Or.inr ⟨_, rfl⟩)

end Outcome

end Account

end Turnstile
