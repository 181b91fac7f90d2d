namespace CodeIndex

/-- A waiter looks at the switch when it is polled for the first time, and from then on only if
there was a flip since it last looked; it is finished once it finds the switch not paused. -/
inductive Waiter where
  /-- Not polled yet. -/
  | created
  | waiting (seen : Nat)
  | finished
deriving DecidableEq, Repr

def Waiter.isFinished : Waiter → Bool
  | finished => true
  | _ => false

/-- A pause switch with any number of handles, receivers and waiters. Every handle is a reference to
the one switch, which counts its flips. -/
structure PauseSwitch where
  paused : Bool
  flips : Nat
  handles : Nat
  receivers : List Nat
  waiters : List Waiter
deriving DecidableEq, Repr

namespace PauseSwitch

/-- A switch with one handle. -/
def start (paused : Bool) : PauseSwitch := ⟨paused, 0, 1, [], []⟩

/-- What is done through a handle is done to the switch, whichever handle it is. -/
inductive Step where
  | set (paused : Bool) (handle : Nat := 0)
  | isPaused (handle : Nat := 0)
  | clone (handle : Nat := 0)
  | subscribe (handle : Nat := 0)
  | changed (receiver : Nat)
  | read (receiver : Nat)
  | wait (handle : Nat := 0)
  | poll (waiter : Nat)
deriving DecidableEq, Repr

def Step.pause (handle : Nat) : Step := .set true handle

def Step.unpause (handle : Nat) : Step := .set false handle

inductive Answer where
  | nothing
  | flag (value : Bool)
  | number (value : Nat)
deriving DecidableEq, Repr

/-- A set to the present value is no flip. -/
def set (s : PauseSwitch) (paused : Bool) : PauseSwitch :=
  if s.paused = paused then s else { s with paused, flips := s.flips + 1 }

def hasChanged (s : PauseSwitch) (receiver : Nat) : Bool :=
  s.receivers[receiver]?.any (· != s.flips)

def isFinished (s : PauseSwitch) (waiter : Nat) : Bool :=
  s.waiters[waiter]?.any Waiter.isFinished

/-- A waiter that has just looked at the switch. -/
def look (s : PauseSwitch) : Waiter := if s.paused then .waiting s.flips else .finished

/-- A waiter after a poll. -/
def polled (s : PauseSwitch) : Waiter → Waiter
  | .created => s.look
  | .waiting seen => if seen = s.flips then .waiting seen else s.look
  | .finished => .finished

def step (s : PauseSwitch) : Step → Answer × PauseSwitch
  | .set paused _ => (.nothing, s.set paused)
  | .isPaused _ => (.flag s.paused, s)
  | .clone _ => (.number s.handles, { s with handles := s.handles + 1 })
  | .subscribe _ =>
    (.number s.receivers.length, { s with receivers := s.receivers ++ [s.flips] })
  | .changed r => (.flag (s.hasChanged r), s)
  | .read r => (.flag s.paused, { s with receivers := s.receivers.set r s.flips })
  | .wait _ => (.number s.waiters.length, { s with waiters := s.waiters ++ [.created] })
  | .poll w =>
    let s := { s with waiters := s.waiters.modify w s.polled }
    (.flag (s.isFinished w), s)

def run (s : PauseSwitch) : List Step → List Answer × PauseSwitch
  | [] => ([], s)
  | step :: steps =>
    let (answer, s) := s.step step
    let (answers, s) := s.run steps
    (answer :: answers, s)

end PauseSwitch
end CodeIndex
