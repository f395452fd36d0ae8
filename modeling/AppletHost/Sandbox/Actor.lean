import AppletHost.Bridge.Reply
import AppletHost.Sandbox.Engine

/-!
# Sandboxes

A sandbox runs an engine on a thread of its own. Its owner holds a handle, and a forwarder on the
bridge claims the method requests that are published there; both put commands into one queue, which
the thread takes them from in order. In between the thread calls the timers that are due.

`Actor.step` is one indivisible step of any of the parties. A call from the handle first looks whether
the sandbox is disposed (`invoke`, `trigger`) and only later reaches the queue (`enter`); a request
first looks whether the forwarder is still subscribed (`request`). Disposing takes four steps of its
own, and the thread takes two more after it has left its loop. Every call gets a ticket, and its reply
is kept under that ticket.
-/

namespace AppletHost.Sandbox

open Script (Program)

/-- The phases of a sandbox's life. -/
inductive Phase where
  /-- Nothing is loaded yet. -/
  | unloaded
  /-- The program ran, but registered no app. -/
  | loaded
  /-- The app is registered and was launched. -/
  | launched
  /-- The app has handled a call since. -/
  | running
  | disposed
deriving DecidableEq, Repr, Inhabited

/-- The name of a phase. -/
def Phase.name : Phase → String
  | .unloaded => "unloaded"
  | .loaded => "loaded"
  | .launched => "launched"
  | .running => "running"
  | .disposed => "disposed"

/-- The phase once a call is handled. -/
def Phase.onCall : Phase → Phase
  | .launched => .running
  | phase => phase

/-- Where the thread of a sandbox is. -/
inductive Thread where
  | loading
  | serving
  /-- It has left its loop. -/
  | leaving
  /-- It has ended the timers. -/
  | stopped
  /-- The queue is gone, with all that was left in it. -/
  | gone
deriving DecidableEq, Repr, Inhabited

/-- How far disposing has come. -/
inductive Disposal where
  | notBegun
  | flagged
  | unsubscribed
  | queued
  | announced
deriving DecidableEq, Repr, Inhabited

/-- Whoever waits for a reply, at the handle or behind the bridge. -/
structure Caller where
  ticket : Nat
  viaBridge : Bool
deriving DecidableEq, Repr, Inhabited

/-- What the thread is asked to do. -/
inductive Command where
  | invoke (caller : Caller) (method : String) (args : Value)
  | trigger (caller : Caller) (hook : Hook) (args : Value)
  | dispose
deriving Inhabited

/-- What a caller gets. -/
inductive Reply where
  | outcome (outcome : MethodOutcome)
  | triggered
  /-- The sandbox is disposed. -/
  | disposed
  | unanswered (error : Bridge.RequestError)
deriving Inhabited

/-- The text of a refusal. -/
def disposedText : String := "sandbox disposed"

/-- A step of the owner, of a publisher on the bridge, of the thread, or of the clock. -/
inductive Step where
  | load (program : Option Program)
  | invoke (method : String) (args : Value)
  | trigger (name : String) (args : Value)
  | request (method : String) (args : Value)
  /-- A call that was let in reaches the queue. -/
  | enter (ticket : Nat)
  | flag
  | unsubscribe
  | queueDispose
  | announce
  | take
  | fire
  | leave
  | hangUp
  /-- The clock is going to show these times. -/
  | wind (readings : List Nat)
deriving Inhabited

namespace Command

/-- The ticket of the call. -/
def ticket? : Command → Option Nat
  | .invoke caller _ _ => some caller.ticket
  | .trigger caller _ _ => some caller.ticket
  | .dispose => none

/-- The reply when the queue is gone before the command reaches it. -/
def refusal? : Command → Option (Nat × Reply)
  | .invoke caller _ _ =>
    some (caller.ticket,
      if caller.viaBridge then .outcome (.failed disposedText) else .disposed)
  | .trigger caller _ _ => some (caller.ticket, .disposed)
  | .dispose => none

/-- The reply when the queue goes with the command in it. -/
def loss? : Command → Option (Nat × Reply)
  | .invoke caller method _ =>
    some (caller.ticket,
      if caller.viaBridge then .unanswered (.replyDropped method) else .disposed)
  | .trigger caller _ _ => some (caller.ticket, .disposed)
  | .dispose => none

end Command

/-- A sandbox, its handle and its forwarder. -/
structure Actor where
  engine : Engine
  phase : Phase := .unloaded
  thread : Thread := .loading
  disposal : Disposal := .notBegun
  /-- How many calls have begun. -/
  calls : Nat := 0
  /-- The calls that were let in but have not reached the queue. -/
  admitted : List Command := []
  queue : List Command := []
  replies : List (Nat × Reply) := []
deriving Inhabited

namespace Actor

/-- A sandbox before anything is loaded. -/
def create (app : String) (limits : Limits) : Actor := { engine := .create app limits }

/-- The committed data as a value. -/
def snapshot (a : Actor) : Value := a.engine.snapshot

/-- The owner has begun to dispose the sandbox. -/
def isDisposed (a : Actor) : Bool := a.disposal != .notBegun

/-- The forwarder receives what is published on the bridge. -/
def isSubscribed (a : Actor) : Bool := a.disposal = .notBegun || a.disposal = .flagged

/-- The reply to a call, if there is one yet. -/
def reply? (a : Actor) (ticket : Nat) : Option Reply := a.replies.lookup ticket

/-- Replies to a call. -/
def reply (a : Actor) (ticket : Nat) (r : Reply) : Actor :=
  { a with replies := a.replies ++ [(ticket, r)] }

/-- Begins a call: it is let in, or replied to at once. -/
def begin (a : Actor) (command : Nat → Except Reply Command) : Actor :=
  let ticket := a.calls
  let a := { a with calls := ticket + 1 }
  match command ticket with
  | .ok command => { a with admitted := a.admitted ++ [command] }
  | .error r => a.reply ticket r

/-- A call that was let in reaches the queue, or finds it gone. -/
def enter (a : Actor) (ticket : Nat) : Actor :=
  match a.admitted.find? fun c => c.ticket? = some ticket with
  | none => a
  | some command =>
    let a := { a with admitted := a.admitted.filter fun c => c.ticket? ≠ some ticket }
    if a.thread = .gone then { a with replies := a.replies ++ command.refusal?.toList }
    else { a with queue := a.queue ++ [command] }

/-- Handles a command that was taken off the queue. -/
def handle (a : Actor) : Command → Actor
  | .invoke caller method args =>
    let (outcome, engine) := a.engine.invoke method args
    { a with engine, phase := a.phase.onCall }.reply caller.ticket (.outcome outcome)
  | .trigger caller hook args =>
    { a with engine := a.engine.trigger hook args, phase := a.phase.onCall }.reply caller.ticket
      .triggered
  | .dispose => { a with thread := .leaving }

/-- Calls the timers that are due by the clock, if any is. -/
def fire (a : Actor) : Actor :=
  { a with
    engine := a.engine.ring
    phase := if a.engine.isDue then a.phase.onCall else a.phase }

/-- Runs the program and launches the app that it registers. -/
def load (a : Actor) (program : Option Program) : Actor :=
  let (report, engine) := a.engine.load program
  { a with
    engine
    thread := .serving
    phase := if report.registered then .launched else .loaded }

/-- One indivisible step. A step whose party is not in a place to take it changes nothing. -/
def step (a : Actor) : Step → Actor
  | .wind readings =>
    { a with engine.session.clock.coming := a.engine.session.clock.coming ++ readings }
  | .load program => if a.thread = .loading then a.load program else a
  | .invoke method args =>
    if a.thread = .loading then a
    else a.begin fun ticket =>
      if a.isDisposed then .error .disposed else .ok (.invoke ⟨ticket, false⟩ method args)
  | .trigger name args =>
    if a.thread = .loading then a
    else a.begin fun ticket =>
      if a.isDisposed then .error .disposed
      else match Hook.ofName? name with
        | some hook => .ok (.trigger ⟨ticket, false⟩ hook args)
        | none => .error .triggered
  | .request method args =>
    if a.thread = .loading then a
    else a.begin fun ticket =>
      if a.isSubscribed then .ok (.invoke ⟨ticket, true⟩ method args)
      else .error (.unanswered (.noResponder method))
  | .enter ticket => a.enter ticket
  | .flag =>
    if a.disposal = .notBegun ∧ a.thread ≠ .loading then { a with disposal := .flagged } else a
  | .unsubscribe => if a.disposal = .flagged then { a with disposal := .unsubscribed } else a
  | .queueDispose =>
    if a.disposal = .unsubscribed then
      { a with disposal := .queued, queue := a.queue ++ [.dispose] }
    else a
  | .announce =>
    if a.disposal = .queued then { a with disposal := .announced, phase := .disposed } else a
  | .take =>
    match a.thread, a.queue with
    | .serving, command :: rest => { a with queue := rest }.handle command
    | _, _ => a
  | .fire => if a.thread = .serving then a.fire else a
  | .leave =>
    if a.thread = .leaving then
      { a with engine := a.engine.shutdown, thread := .stopped, phase := .disposed }
    else a
  | .hangUp =>
    if a.thread = .stopped then
      { a with
        thread := .gone
        queue := []
        replies := a.replies ++ a.queue.filterMap Command.loss? }
    else a

/-- Steps one after another. -/
def run (a : Actor) (steps : List Step) : Actor := steps.foldl step a

/-! ## Uninterrupted calls -/

/-- The thread works until its queue is empty or it has ended. -/
def settle (a : Actor) : Actor :=
  (a.run (a.queue.map fun _ => .take)).run [.leave, .hangUp]

/-- A call from its first step to its reply, with no other party in between. -/
def call (a : Actor) (first : Step) : Option Reply × Actor :=
  let ticket := a.calls
  let a := (a.run [first, .enter ticket]).settle
  (a.reply? ticket, a)

/-- Time passes until the next timer is due, and the timers that are due then fire. -/
def passTime (a : Actor) : Actor :=
  match a.engine.nextDeadline.1 with
  | none => a
  | some deadline => a.run [.wind [deadline], .fire]

/-- Disposes the sandbox, with no other party in between. -/
def dispose (a : Actor) : Actor :=
  (a.run [.flag, .unsubscribe, .queueDispose, .announce]).settle

end Actor

end AppletHost.Sandbox
