import Turnstile.World.Schedule

/-! Scripts: what happens to a world from outside, step by step. -/
namespace Turnstile

namespace Script

inductive Command
  /-- Nothing happens but that everything settles. -/
  | settle
  | elapse (d : Span)
  | cancel (token : TokenId)
  | take (token : TokenId)
  | breakHook (sync : SyncId) (hook : Hook) (error : SyncError) (times : Option Nat)
  | showNodes (sync : SyncId)
  | describe (sync : SyncId)
  | arm (pause : Pause)
  | resume (actor : ActorId)
  | run (actor : ActorId)
  | wake (actor : ActorId)
  | perform (actor : ActorId) (op : Operation)
  /-- A command under a name that means nothing. -/
  | unknown

structure Step where
  command : Command
  /-- Leaves everything as the command left it. -/
  hold : Bool

inductive Reply
  | none
  | done
  | truth (b : Bool)
  | text (s : String)
  | texts (ss : List String)
  | busy
  | notPaused
  | notRunnable
  | unknown

structure Report where
  reply : Reply
  ran : List Run
  world : World

def execute (w : World) : Command → World × Reply × List Run
  | .settle => (w, .done, [])
  | .elapse d => (w.elapse d, .done, [])
  | .cancel t => (w.cancel t, .done, [])
  | .take t => let (w, b) := w.takeFlag (some t); (w, .truth b, [])
  | .breakHook s h e times => (w.modifySync s (·.breakHook h e times), .done, [])
  | .showNodes s => (w, .texts (w.sync s).nodeTexts, [])
  | .describe s => (w, .text (w.sync s).describe, [])
  | .arm p => ({ w with pauses := w.pauses ++ [p] }, .done, [])
  | .resume a =>
    match (w.actor a).activity with
    | .busy .paused _ => let (w, r) := w.goOn a; (w, .none, [r])
    | _ => (w, .notPaused, [])
  | .run a =>
    match (w.actor a).activity with
    | .busy .runnable _ =>
      let (w, r) := ({ w with runnable := w.runnable.filter (· != a) } : World).goOn a
      (w, .none, [r])
    | .busy .spinning _ => let (w, r) := w.goOn a; (w, .none, [r])
    | _ => (w, .notRunnable, [])
  | .wake a => (w.wake a, .done, [])
  | .perform a op =>
    match (w.actor a).activity with
    | .idle => let (w, r) := w.perform a op; (w, .none, [r])
    | _ => (w, .busy, [])
  | .unknown => (w, .unknown, [])

def step (w : World) (s : Step) : Report :=
  let (w, reply, ran) := execute w s.command
  if s.hold then ⟨reply, ran, w⟩
  else
    let (w, others) := w.settle (ran.map (·.actor))
    ⟨reply, ran ++ others, w⟩

def run (w : World) : List Step → List Report
  | [] => []
  | s :: rest => let r := step w s; r :: run r.world rest

def last (w : World) (steps : List Step) : World := steps.foldl (fun w s => (step w s).world) w

end Script

end Turnstile
