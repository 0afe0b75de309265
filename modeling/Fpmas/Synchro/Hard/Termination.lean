import Mathlib.Data.Fin.Basic
import Mathlib.Data.List.FinRange
import Mathlib.Logic.Function.Basic
import Fpmas.Library.TransitionSystem
import Fpmas.Synchro.Hard.HardSyncMutex

set_option autoImplicit false

namespace Fpmas.Synchro.Hard

inductive Epoch where
  | even
  | odd
deriving DecidableEq

inductive Color where
  | white
  | black
deriving DecidableEq

-- Requests without a response.
inductive Command where
  | releaseAcquire
  | unlock
  | unlockShared
  | link
  | unlink
  | removeNode
deriving DecidableEq

inductive Tag where
  | access (type : MutexRequestType)
  | command (command : Command)
deriving DecidableEq

abbrev Rank (n : Nat) := Fin (n + 1)

variable {n : Nat}

/-- A request initiated by `Issend` and not received yet. The code tags it with the parity of its
round, the number of terminations its sender has gone through. -/
structure Request (n : Nat) where
  dest : Rank n
  tag : Tag
  epoch : Epoch
  round : Nat

/-- One wait of the call stack of a process, or a wait still to come. -/
inductive Frame (n : Nat) where
  | send (requests : List (Rank n × Tag))
  | waitSend (pending : List (Request n))
  | waitResponse (server : Rank n) (type : MutexRequestType)
  | waitLocal

inductive Operation (n : Nat) where
  | access (server : Rank n) (type : MutexRequestType)
  | sends (requests : List (Rank n × Command))
  | waitLocal

-- What `removeNode` does on the process that owns the node: it may wait for the mutex of the node, then
-- each `unlink` sends its UNLINK requests.
inductive RemoveNodeStep (n : Nat) where
  | lockShared
  | unlink (dests : List (Rank n))

def Operation.frames : Operation n → List (Frame n)
  | .access server type => [.send [(server, .access type)], .waitResponse server type]
  | .sends requests => [.send (requests.map fun request => (request.1, .command request.2))]
  | .waitLocal => [.waitLocal]

def RemoveNodeStep.operation : RemoveNodeStep n → Operation n
  | .lockShared => .waitLocal
  | .unlink dests => .sends (dests.map fun dest => (dest, .unlink))

structure Process (n : Nat) where
  terminating : Bool
  frames : List (Frame n)
  epoch : Epoch
  color : Color
  -- Not in the code: the epochs the process has terminated, and whether the token has left it
  -- since it entered `terminate`.
  round : Nat
  passed : Bool

structure Token (n : Nat) where
  source : Rank n
  dest : Rank n
  epoch : Epoch
  color : Color

structure End (n : Nat) where
  dest : Rank n
  epoch : Epoch

-- A request the server has received and not answered.
structure Unanswered (n : Nat) where
  server : Rank n
  dest : Rank n
  type : MutexRequestType

structure TerminationResponse (n : Nat) where
  server : Rank n
  dest : Rank n
  type : MutexRequestType
  epoch : Epoch
  round : Nat

structure TerminationState (n : Nat) where
  process : Rank n → Process n
  unanswered : List (Unanswered n)
  responses : List (TerminationResponse n)
  tokens : List (Token n)
  ends : List (End n)

inductive TerminationAction (n : Nat) where
  | call (p : Rank n) (operation : Operation n)
  | issend (p : Rank n)
  | deliver (p : Rank n) (frame index : Nat) (handler : List (RemoveNodeStep n))
  | sent (p : Rank n)
  | respond (index : Nat)
  | receive (p : Rank n)
  | granted (p : Rank n)
  | enter (p : Rank n)
  | token (p : Rank n)
  | finish (p : Rank n)

def Epoch.toggle : Epoch → Epoch
  | .even => .odd
  | .odd => .even

namespace Process

variable (process : Process n)

def setFrames (frames : List (Frame n)) : Process n :=
  { process with frames }

-- `toggleEpoch` and the return from `terminate`.
def toggleEpoch : Process n :=
  { process with
    terminating := false
    epoch := process.epoch.toggle
    round := process.round + 1
    passed := false }

def listening : Bool :=
  match process.frames with
  | [] => process.terminating
  | .send _ :: _ => false
  | .waitSend _ :: _ | .waitResponse _ _ :: _ | .waitLocal :: _ => true

-- The main loop of `terminate`, outside `handleIncomingRequests`.
def looping : Bool :=
  process.terminating && process.frames.isEmpty

end Process

namespace TerminationState

variable (s : TerminationState n)

def update (p : Rank n) (f : Process n → Process n) : TerminationState n :=
  { s with process := Function.update s.process p (f (s.process p)) }

def call (p : Rank n) (operation : Operation n) : Option (TerminationState n) :=
  if (s.process p).terminating = false ∧ (s.process p).frames.isEmpty then
    some (s.update p fun process => process.setFrames operation.frames)
  else none

def issend (p : Rank n) : Option (TerminationState n) :=
  match (s.process p).frames with
  | .send requests :: rest =>
    let pending := requests.map fun request =>
      { dest := request.1, tag := request.2, epoch := (s.process p).epoch,
        round := (s.process p).round : Request n }
    some (s.update p fun process => process.setFrames (.waitSend pending :: rest))
  | _ => none

-- The handlers of LINK, UNLINK and of the mutex requests only compute; that of REMOVE_NODE calls
-- `removeNode`, which waits and sends requests of its own.
def handle (q source : Rank n) (tag : Tag) (handler : List (RemoveNodeStep n)) :
    Option (TerminationState n) :=
  match tag with
  | .command .removeNode =>
    some (s.update q fun process =>
      process.setFrames (handler.flatMap (·.operation.frames) ++ process.frames))
  | .access type =>
    if handler.isEmpty then
      some { s with unanswered := s.unanswered ++ [{ server := q, dest := source, type }] }
    else none
  | .command _ => if handler.isEmpty then some s else none

def deliver (p : Rank n) (frame index : Nat) (handler : List (RemoveNodeStep n)) :
    Option (TerminationState n) :=
  match (s.process p).frames[frame]? with
  | some (.waitSend pending) =>
    match pending[index]? with
    | some request =>
      if (s.process request.dest).listening ∧ (s.process request.dest).epoch = request.epoch then
        (s.update p fun process => process.setFrames
          (process.frames.set frame (.waitSend (pending.eraseIdx index)))).handle
            request.dest p request.tag handler
      else none
    | none => none
  | _ => none

-- The end of `waitSendRequest`, for all the requests sent together.
def sent (p : Rank n) : Option (TerminationState n) :=
  match (s.process p).frames with
  | .waitSend [] :: rest => some (s.update p fun process => process.setFrames rest)
  | _ => none

-- A mutex server answers a request at once, or after some release.
def respond (index : Nat) : Option (TerminationState n) :=
  (s.unanswered[index]?).map fun request =>
    { s with
      unanswered := s.unanswered.eraseIdx index
      responses := s.responses ++ [{
        server := request.server, dest := request.dest, type := request.type,
        epoch := (s.process request.server).epoch, round := (s.process request.server).round }] }

def awaited (p server : Rank n) (type : MutexRequestType) (response : TerminationResponse n) :
    Bool :=
  decide (response.dest = p ∧ response.server = server ∧ response.type = type ∧
    response.epoch = (s.process p).epoch)

def receive (p : Rank n) : Option (TerminationState n) :=
  match (s.process p).frames with
  | .waitResponse server type :: rest =>
    if s.responses.any (s.awaited p server type) then
      some { s.update p fun process => process.setFrames rest with
        responses := s.responses.eraseP (s.awaited p server type) }
    else none
  | _ => none

def granted (p : Rank n) : Option (TerminationState n) :=
  match (s.process p).frames with
  | .waitLocal :: rest => some (s.update p fun process => process.setFrames rest)
  | _ => none

def sendToken (source dest : Rank n) (color : Color) : TerminationState n :=
  { s with tokens := s.tokens ++ [{ source, dest, epoch := (s.process source).epoch, color }] }

-- The beginning of `terminate`: rank 0 sends the token to the last rank.
def enter (p : Rank n) : Option (TerminationState n) :=
  if (s.process p).terminating = false ∧ (s.process p).frames.isEmpty then
    if p = 0 then
      some ((s.update p fun process =>
        { process with terminating := true, color := .white, passed := true }).sendToken p
          (Fin.last n) .white)
    else some (s.update p fun process => { process with terminating := true })
  else none

def tokenFor (p : Rank n) (token : Token n) : Bool :=
  decide (token.source = p + 1 ∧ token.dest = p ∧ token.epoch = (s.process p).epoch)

-- The branch of the main loop that finds the token sent by `sup_rank`.
def token (p : Rank n) : Option (TerminationState n) :=
  if (s.process p).looping then
    (s.tokens.find? (s.tokenFor p)).map fun token =>
      let s₁ := { s with tokens := s.tokens.eraseP (s.tokenFor p) }
      if p = 0 then
        if token.color = .white ∧ (s.process p).color = .white then
          { s₁.update p Process.toggleEpoch with
            ends := s.ends ++ ((List.finRange (n + 1)).filter (· ≠ 0)).map fun i =>
              { dest := i, epoch := (s.process p).epoch } }
        else
          (s₁.update p fun process => { process with color := .white }).sendToken p (Fin.last n)
            .white
      else
        (s₁.update p fun process =>
          { process with color := .white, passed := true }).sendToken p (p - 1)
            (if (s.process p).color = .black then .black else token.color)
  else none

def endFor (p : Rank n) (message : End n) : Bool :=
  decide (message.dest = p ∧ message.epoch = (s.process p).epoch)

def finish (p : Rank n) : Option (TerminationState n) :=
  if (s.process p).looping = true ∧ p ≠ 0 ∧ s.ends.any (s.endFor p) = true then
    some { s.update p Process.toggleEpoch with ends := s.ends.eraseP (s.endFor p) }
  else none

def next : TerminationAction n → Option (TerminationState n)
  | .call p operation => s.call p operation
  | .issend p => s.issend p
  | .deliver p frame index handler => s.deliver p frame index handler
  | .sent p => s.sent p
  | .respond index => s.respond index
  | .receive p => s.receive p
  | .granted p => s.granted p
  | .enter p => s.enter p
  | .token p => s.token p
  | .finish p => s.finish p

def start : TerminationState n where
  process _ := { terminating := false, frames := [], epoch := .even, color := .white, round := 0,
                 passed := false }
  unanswered := []
  responses := []
  tokens := []
  ends := []

end TerminationState

def termination (n : Nat) : TransitionSystem (TerminationState n) (TerminationAction n) where
  init s := s = TerminationState.start
  next s := s.next

end Fpmas.Synchro.Hard
