import Dims.NodeMedium
import Dims.GuardedRun
import Mathlib.Data.Finset.Basic

/-!
# The action handler

common/actionHandler.cpp with the request handlers of requestHandler.cpp, the media of the
nodes and the register of the actions in progress. The loop goes through three phases: it
services the actions, reads the media, and runs the requests that are new. In each phase
the other threads make and delete media and hand over messages, and actions change their
requests. Requests to other media than those of nodes, and the way of a response from its
handler to the action, are not part of the model.
-/

namespace Dims
open CNodeMedium

/-- The medium at an address, and which of all the media that have been made it is. -/
structure LiveMedium (ρ : Type) where
  identity : ℕ
  node : CNodeMedium ρ

/-- An action is known by its address; several may carry one key. -/
structure CAction where
  address : ℕ
  actionKey : Uint256
  requests : List CRequest
  droppedRequests : List CRequest
  exit : Bool

namespace CAction

def combined (action : CAction) : List CRequest := action.droppedRequests ++ action.requests

def addRequest (action : CAction) (request : CRequest) : CAction :=
  { action with requests := action.requests ++ [request] }

def forgetRequests (action : CAction) : CAction :=
  { action with droppedRequests := action.droppedRequests ++ action.requests, requests := [] }

def setExit (action : CAction) : CAction := { action with exit := true }

def needToExit (action : CAction) (processed : List CRequest) : Bool :=
  action.exit && action.combined.all (· ∈ processed)

def ids (action : CAction) : List Uint256 :=
  action.actionKey :: action.combined.map CRequest.getId

end CAction

/-- A handler lies in the set of handlers at the address of its medium. It is registered with
the medium that it was made for. Each new request comes with the medium that was at the
address when it was set. -/
structure CRequestHandler where
  valid : Bool
  usedMedium : ℕ
  newRequest : List (CRequest × ℕ)

inductive LoopPhase
  | acting
  | reading
  | running
  deriving DecidableEq, Repr

/-- A request that has been run: the medium that it was set for, and the one that was at the
address then. -/
structure Execution where
  request : CRequest
  addressee : ℕ
  executor : Option ℕ

structure CActionHandler (ρ : Type) where
  media : ℕ → Option (LiveMedium ρ)
  /-- How many media have been made. -/
  created : ℕ
  actions : List CAction
  requestHandlers : ℕ → Option CRequestHandler
  currentlyUsedHandlers : List (CRequest × ℕ)
  requestHandlersToExecute : Finset ℕ
  requestHandlersToRead : Finset ℕ
  /-- The requests with the flag `m_processed`. -/
  processed : List CRequest
  /-- The register of the network actions. -/
  actionsInProgress : Finset Uint256
  phase : LoopPhase
  /-- The actions that have been cleaned up and are about to be deleted. -/
  closing : List CAction
  /-- The identifiers of the actions that have been cleaned up. -/
  retired : List Uint256
  executed : List Execution
  /-- The requests that have been marked as processed without being run. -/
  skipped : List (CRequest × ℕ)

namespace CActionHandler

variable {ρ : Type}

def init : CActionHandler ρ where
  media _ := none
  created := 0
  actions := []
  requestHandlers _ := none
  currentlyUsedHandlers := []
  requestHandlersToExecute := ∅
  requestHandlersToRead := ∅
  processed := []
  actionsInProgress := ∅
  phase := .acting
  closing := []
  retired := []
  executed := []
  skipped := []

section Media

def createMedium (s : CActionHandler ρ) (address : ℕ) : CActionHandler ρ :=
  match s.media address with
  | some _ => s
  | none => { s with
      media := Function.update s.media address (some ⟨s.created, .empty⟩)
      created := s.created + 1 }

/-- `setInvalid`, which the medium calls for the handlers that are registered with it. -/
def setInvalid (medium : ℕ) (handler : CRequestHandler) : CRequestHandler :=
  if handler.usedMedium = medium then { handler with valid := false } else handler

def deleteMedium (s : CActionHandler ρ) (address : ℕ) : CActionHandler ρ :=
  match s.media address with
  | none => s
  | some medium => { s with
      media := Function.update s.media address none
      requestHandlers := Function.update s.requestHandlers address
        ((s.requestHandlers address).map (setInvalid medium.identity)) }

def modifyMedium (s : CActionHandler ρ) (address : ℕ) (f : CNodeMedium ρ → CNodeMedium ρ) :
    CActionHandler ρ :=
  match s.media address with
  | none => s
  | some medium =>
    { s with media := Function.update s.media address (some { medium with node := f medium.node }) }

/-- What `processMessage` hands over for an action in progress. -/
def message (s : CActionHandler ρ) (address : ℕ) (actionKey id : Uint256) (direct : Bool)
    (response : ρ) : CActionHandler ρ :=
  if actionKey ∈ s.actionsInProgress then
    s.modifyMedium address fun medium =>
      if direct then medium.addActionResponse actionKey response
      else medium.setResponse id response
  else s

end Media

section Actions

def allActions (s : CActionHandler ρ) : List CAction := s.actions ++ s.closing

def executeAction (s : CActionHandler ρ) (address : ℕ) (actionKey : Uint256) : CActionHandler ρ :=
  if s.allActions.any (·.address = address) then s
  else { s with
    actions := s.actions ++ [⟨address, actionKey, [], [], false⟩]
    actionsInProgress := insert actionKey s.actionsInProgress }

def modifyAction (s : CActionHandler ρ) (address : ℕ) (f : CAction → CAction) : CActionHandler ρ :=
  { s with actions := s.actions.map fun action => if action.address = address then f action else action }

/-- A new request, at an address that is free; it is not processed yet. -/
def addRequest (s : CActionHandler ρ) (address : ℕ) (request : CRequest) : CActionHandler ρ :=
  if (s.allActions.flatMap CAction.combined).any (·.address = request.address) then s
  else
    { s with processed := s.processed.filter (·.address ≠ request.address) }.modifyAction address
      (·.addRequest request)

/-- The requests of the action are deleted with it. -/
def destroy (s : CActionHandler ρ) (address : ℕ) : CActionHandler ρ :=
  match s.closing.find? (·.address = address) with
  | none => s
  | some action => { s with
      closing := s.closing.filter (·.address ≠ address)
      actionsInProgress := s.actionsInProgress.erase action.actionKey }

end Actions

section Loop

/-- `provideHandler` and `setRequest` for one medium that the filter gives; a handler that is
at its address is taken. -/
def useHandler (request : CRequest) (s : CActionHandler ρ) (address : ℕ) : CActionHandler ρ :=
  match s.media address with
  | none => s
  | some medium =>
    let handler := (s.requestHandlers address).getD ⟨true, medium.identity, []⟩
    { s with
      requestHandlers := Function.update s.requestHandlers address (some { handler with
        newRequest := handler.newRequest ++ [(request, medium.identity)] })
      requestHandlersToExecute := insert address s.requestHandlersToExecute
      currentlyUsedHandlers := s.currentlyUsedHandlers ++ [(request, address)] }

/-- A request that has no handler yet gets those of the media that its filter gives. -/
def submit (mediums : CRequest → List ℕ) (s : CActionHandler ρ) (request : CRequest) :
    CActionHandler ρ :=
  if s.currentlyUsedHandlers.any (·.1 = request) then s
  else (mediums request).foldl (useHandler request) s

/-- `deleteAction` and `deleteRequest` of one handler. -/
def release (action : CAction) (request : CRequest) (s : CActionHandler ρ) (address : ℕ) :
    CActionHandler ρ :=
  match s.requestHandlers address with
  | none => s
  | some handler =>
    if handler.valid then
      s.modifyMedium address fun medium =>
        (medium.deleteAction action.actionKey).deleteRequest request
    else s

/-- The handlers of a request are released and forgotten. -/
def releaseHandlers (action : CAction) (s : CActionHandler ρ) (request : CRequest) :
    CActionHandler ρ :=
  let addresses := (s.currentlyUsedHandlers.filter (·.1 = request)).map Prod.snd
  { addresses.foldl (release action request) s with
    currentlyUsedHandlers := s.currentlyUsedHandlers.filter (·.1 ≠ request) }

def cleanUp (s : CActionHandler ρ) (action : CAction) : CActionHandler ρ :=
  { action.combined.foldl (releaseHandlers action) s with
    actions := s.actions.filter (·.address ≠ action.address)
    closing := s.closing ++ [action]
    retired := s.retired ++ action.ids }

/-- What the loop does for one action. -/
def service (s : CActionHandler ρ) (address : ℕ) (mediums : CRequest → List ℕ) :
    CActionHandler ρ :=
  match s.actions.find? (·.address = address) with
  | none => s
  | some action =>
    if action.needToExit s.processed then s.cleanUp action
    else action.combined.foldl (submit mediums) s

def validHandler (s : CActionHandler ρ) (address : ℕ) : Option CRequestHandler :=
  (s.requestHandlers address).filter (·.valid)

def getDirectActionResponse (s : CActionHandler ρ) (address action : ℕ) : CActionHandler ρ :=
  match s.validHandler address, s.actions.find? (·.address = action) with
  | some _, some action =>
    s.modifyMedium address fun medium =>
      (medium.getDirectActionResponseAndClear action.actionKey).1
  | _, _ => s

/-- No value where reading the medium meets a fault. -/
def processMediumResponses (s : CActionHandler ρ) (address : ℕ) : Option (CActionHandler ρ) :=
  match s.validHandler address, s.media address with
  | some _, some medium =>
    if medium.node.serviced then
      medium.node.getResponseAndClear.toOption.map fun read =>
        s.modifyMedium address fun _ => read.1
    else some s
  | _, _ => some s

def runRequest (address : ℕ) (s : CActionHandler ρ) (request : CRequest × ℕ) : CActionHandler ρ :=
  { s.modifyMedium address (·.add request.1) with
    processed := s.processed ++ [request.1]
    executed := s.executed ++ [⟨request.1, request.2, (s.media address).map (·.identity)⟩] }

/-- The new requests of a handler that is not valid are marked and dropped. -/
def runRequests (s : CActionHandler ρ) (address : ℕ) : CActionHandler ρ :=
  match s.requestHandlers address with
  | none => s
  | some handler =>
    let s :=
      if handler.valid then handler.newRequest.foldl (runRequest address) s
      else { s with
        processed := s.processed ++ handler.newRequest.map Prod.fst
        skipped := s.skipped ++ handler.newRequest }
    { s with
      requestHandlers :=
        Function.update s.requestHandlers address (some { handler with newRequest := [] })
      requestHandlersToExecute := s.requestHandlersToExecute.erase address
      requestHandlersToRead := insert address s.requestHandlersToRead }

/-- A phase ends when its work is done. -/
def next (s : CActionHandler ρ) : CActionHandler ρ :=
  match s.phase with
  | .acting => if s.closing = [] then { s with phase := .reading } else s
  | .reading => { s with phase := .running }
  | .running => if s.requestHandlersToExecute = ∅ then { s with phase := .acting } else s

end Loop

inductive Event (ρ : Type)
  | createMedium (address : ℕ)
  | deleteMedium (address : ℕ)
  | message (address : ℕ) (actionKey id : Uint256) (direct : Bool) (response : ρ)
  | executeAction (address : ℕ) (actionKey : Uint256)
  | addRequest (address : ℕ) (request : CRequest)
  | forgetRequests (address : ℕ)
  | setExit (address : ℕ)
  | service (address : ℕ) (mediums : CRequest → List ℕ)
  | destroy (address : ℕ)
  | getDirectActionResponse (address action : ℕ)
  | processMediumResponses (address : ℕ)
  | runRequests (address : ℕ)
  | next

/-- The steps of the loop are taken in their phases only. -/
def react (s : CActionHandler ρ) : Event ρ → Option (CActionHandler ρ)
  | .createMedium address => some (s.createMedium address)
  | .deleteMedium address => some (s.deleteMedium address)
  | .message address actionKey id direct response =>
    some (s.message address actionKey id direct response)
  | .executeAction address actionKey => some (s.executeAction address actionKey)
  | .addRequest address request => some (s.addRequest address request)
  | .forgetRequests address => some (s.modifyAction address CAction.forgetRequests)
  | .setExit address => some (s.modifyAction address CAction.setExit)
  | .service address mediums =>
    some (if s.phase = .acting then s.service address mediums else s)
  | .destroy address => some (s.destroy address)
  | .getDirectActionResponse address action =>
    some (if s.phase = .reading ∧ address ∈ s.requestHandlersToRead then
      s.getDirectActionResponse address action else s)
  | .processMediumResponses address =>
    if s.phase = .reading ∧ address ∈ s.requestHandlersToRead then s.processMediumResponses address
    else some s
  | .runRequests address =>
    some (if s.phase = .running ∧ address ∈ s.requestHandlersToExecute then s.runRequests address
      else s)
  | .next => some s.next

def step (s : Option (CActionHandler ρ)) (event : Event ρ) : Option (CActionHandler ρ) :=
  s.bind fun s => s.react event

end CActionHandler

end Dims
