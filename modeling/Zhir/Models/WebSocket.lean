import Mathlib.Data.List.Infix
import Zhir.Models.Delivered

/-!
The WebSocket session driver: one loop between the host's commands, the socket and the ports. The
protocol is injected; what it returns is executed in order, before it is called again.
-/

set_option autoImplicit false
set_option relaxedAutoImplicit false

namespace Zhir.Models.WebSocket

open Zhir.Core
open Zhir.Library (Trace)

inductive WireMessage
  | text (text : String)
  | binary (bytes : List UInt8)
  deriving DecidableEq, Repr

inductive Action
  | send (message : WireMessage)
  | event (body : SessionEventBody)
  | observe (delta : Value)
  | media (chunk : MediaChunk)
  | fail (error : Error)
  | close
  deriving DecidableEq, Repr

/-- `WebSocketProtocol` over its state. Its deadlines are compared with the time of the call. -/
structure Protocol (ρ : Type) where
  commandsAllowed : ρ → Bool
  finished : ρ → Bool
  generationId : ρ → Option String
  checkDeadline : Nat → ρ → Result Unit
  command : Nat → SessionCommand → ρ → Result (List Action × ρ)
  receive : Nat → WireMessage → ρ → Result (List Action × ρ)

/-- `Driver`, its two channels and what the socket will answer. `actions` is what is left of the
actions of this turn of the loop, `none` at its `select!`. -/
structure Driver (ρ : Type) where
  protocol : ρ
  native : Native
  capacity : Nat
  commands : List SessionCommand := []
  /-- The controls of the session are dropped. -/
  hungUp : Bool := false
  inbound : List (Result (Option WireMessage)) := []
  socketClosed : Bool := false
  closing : Bool := false
  actions : Option (List Action) := none

inductive Call
  | command (command : SessionCommand)
  | message (message : WireMessage)
  deriving DecidableEq, Repr

inductive Happened
  | nothing
  | submitted (command : SessionCommand)
  | arrived (answer : Result (Option WireMessage))
  | called (call : Call) (actions : List Action)
  | performed (action : Action)
  | returned (result : Result Unit)

/-- What happens in a step, and what the ports show of it. -/
structure Label where
  happened : Happened
  shown : List Shown := []

/-- `ports` and the channel of `limits`, once the protocol is connected. -/
def Driver.opened {ρ : Type} (limits : Limits) (epoch : Nat) (protocol : ρ) : Driver ρ where
  protocol
  native := ports limits epoch
  capacity := limits.maxControlCommands

namespace Driver

variable {ρ : Type}

/-- The driver is at its `select!`, with no `flush_one` under way. -/
structure Selecting (d : Driver ρ) : Prop where
  running : d.native.worker = .running
  waiting : d.actions = none
  still : d.native.flushing = none

def Looping (d : Driver ρ) : Prop := d.closing = false ∨ d.native.outputs.pending = true

def commandsOpen (p : Protocol ρ) (d : Driver ρ) : Bool :=
  !d.closing && p.commandsAllowed d.protocol

/-- `can_receive`, while the socket is read at all. -/
def canReceive (d : Driver ρ) : Bool :=
  !d.socketClosed && !d.closing && !d.native.outputs.pending

def body (p : Protocol ρ) (d : Driver ρ) : Action → Option SessionEventBody
  | .event body => some body
  | .observe delta => some (.delta (p.generationId d.protocol) delta)
  | _ => none

/-- The ports after a command was handed over: an interruption retires what is older. -/
def commandedPorts (command : SessionCommand) (n : Native) : Native :=
  match command.body with
  | .interruptOutput _ epoch =>
    { n with
      minEpoch := max n.minEpoch epoch
      outputs := n.outputs.invalidateBefore epoch
      budget := ((n.outputs.pendingMedia.filter fun p => ¬ epoch ≤ p.chunk.epoch).filterMap
        PendingMedia.reservation).foldl (fun b size => b.release size) n.budget }
  | _ => n

def commandedShown (command : SessionCommand) : List Shown :=
  match command.body with
  | .interruptOutput .. => [.nothing]
  | _ => []

def turned (p : Protocol ρ) (d : Driver ρ) : Driver ρ :=
  { d with
    actions := none
    native := if p.finished d.protocol then { d.native with outputs := d.native.outputs.endMedia }
      else d.native }

/-- `settle` with the result of `run`. -/
def settled (result : Result Unit) (d : Driver ρ) : Driver ρ :=
  { d with
    native :=
      { d.native with
        worker := .settled ⟨d.native.outputs.pendingEvents, result⟩
        outputs := { d.native.outputs with pendingEvents := [] } } }

end Driver

section

variable {ρ : Type} (p : Protocol ρ)

/-- What makes `run` fail. -/
inductive Fails (d : Driver ρ) : Error → Prop
  /-- Cancellation and deadline of the run, or nobody receives the events any more. -/
  | guarded {error : Error} (h : error = .cancelled ∨ error = .deadline)
      (hlooping : d.actions = none → d.Looping) : Fails d error
  | deadline {now : Nat} {error : Error} (hselect : d.actions = none) (hlooping : d.Looping)
      (hcheck : p.checkDeadline now d.protocol = .error error) : Fails d error
  | command {now : Nat} {command : SessionCommand} {rest : List SessionCommand} {error : Error}
      (hselect : d.actions = none) (hopen : d.commandsOpen p = true)
      (hcommands : d.commands = command :: rest)
      (hcall : p.command now command d.protocol = .error error) : Fails d error
  | socket {error : Error} {rest : List (Result (Option WireMessage))} (hselect : d.actions = none)
      (hopen : d.canReceive = true) (hinbound : d.inbound = .error error :: rest) : Fails d error
  | receive {now : Nat} {message : WireMessage} {rest : List (Result (Option WireMessage))}
      {error : Error} (hselect : d.actions = none) (hopen : d.canReceive = true)
      (hinbound : d.inbound = .ok (some message) :: rest)
      (hcall : p.receive now message d.protocol = .error error) : Fails d error
  | ended {rest : List (Result (Option WireMessage))} (hselect : d.actions = none)
      (hopen : d.canReceive = true) (hinbound : d.inbound = .ok none :: rest)
      (hunfinished : p.finished d.protocol = false) :
      Fails d (.uncertain "WebSocket ended before protocol completion")
  | ping {error : Error} (hselect : d.actions = none) (hlooping : d.Looping)
      (hopen : d.socketClosed = false ∧ p.finished d.protocol = false) : Fails d error
  | send {message : WireMessage} {rest : List Action} {error : Error}
      (hactions : d.actions = some (.send message :: rest)) : Fails d error
  | event {action : Action} {body : SessionEventBody} {rest : List Action} {error : Error}
      (hactions : d.actions = some (action :: rest)) (hbody : d.body p action = some body)
      (hevent : d.native.outputs.event body = .error error) : Fails d error
  | media {chunk : MediaChunk} {rest : List Action} {error : Error}
      (hactions : d.actions = some (.media chunk :: rest))
      (hmedia : d.native.outputs.queueMedia d.native.minEpoch chunk none = .error error) :
      Fails d error
  | fail {rest : List Action} {error : Error} (hactions : d.actions = some (.fail error :: rest)) :
      Fails d error

/-- The steps of the driver, of the host's controls, of the socket and of the consumers. A
`flush_one` is cancelled when another branch of the `select!` is taken. -/
inductive Drives : Driver ρ → Label → Driver ρ → Prop
  | submit {d : Driver ρ} {command : SessionCommand}
      (hroom : d.native.worker = .running ∧ d.hungUp = false ∧ d.commands.length < d.capacity) :
      Drives d ⟨.submitted command, []⟩ { d with commands := d.commands ++ [command] }
  | hangUp {d : Driver ρ} : Drives d ⟨.nothing, []⟩ { d with hungUp := true }
  | arrive {d : Driver ρ} {answer : Result (Option WireMessage)} :
      Drives d ⟨.arrived answer, []⟩ { d with inbound := d.inbound ++ [answer] }
  | consume {d : Driver ρ} {shown : Shown} {native : Native}
      (h : d.native.receive = some (shown, native) ∨
        d.native.receiveMedia = some (shown, native)) :
      Drives d ⟨.nothing, [shown]⟩ { d with native }
  | flush {d : Driver ρ} (hselect : d.Selecting) (hpending : d.native.outputs.pending = true) :
      Drives d ⟨.nothing, [.nothing]⟩ { d with native := { d.native with flushing := some {} } }
  | poll {d : Driver ρ} {native : Native} {f f' : Flush} (hwaiting : d.actions = none)
      (hflush : d.native.flushing = some f)
      (hport : Delivery d.native .nothing native) (hflush' : native.flushing = some f')
      (hsame : native.outputs = d.native.outputs ∧ native.ingress = d.native.ingress ∧
        native.worker = d.native.worker) :
      Drives d ⟨.nothing, [.nothing]⟩ { d with native }
  | cancelFlush {d : Driver ρ} {f : Flush} (hwaiting : d.actions = none)
      (hflush : d.native.flushing = some f) :
      Drives d ⟨.nothing, [.nothing]⟩
        { d with native := { d.native with flushing := none, budget := f.release d.native.budget } }
  | flushedEvent {d : Driver ρ} {f : Flush} {event : SessionEvent} {rest : List SessionEvent}
      (hwaiting : d.actions = none) (hrunning : d.native.worker = .running)
      (hflush : d.native.flushing = some f) (hpermit : f.permit = true)
      (hfront : d.native.outputs.pendingEvents = event :: rest) :
      Drives d ⟨.nothing, [.nothing]⟩
        { d with native := d.native.sendEvent f event rest, actions := some [] }
  | flushedMedia {d : Driver ρ} {f : Flush} {packet : PendingMedia} {rest : List PendingMedia}
      {bytes : Nat} (hwaiting : d.actions = none) (hrunning : d.native.worker = .running)
      (hflush : d.native.flushing = some f) (hreserved : f.reserving = .reserved bytes)
      (hfront : d.native.outputs.pendingMedia = packet :: rest) :
      Drives d ⟨.nothing, [.nothing]⟩
        { d with native := d.native.sendMedia packet bytes rest, actions := some [] }
  | deadline {d : Driver ρ} {now : Nat} (hselect : d.Selecting) (hlooping : d.Looping)
      (hcheck : p.checkDeadline now d.protocol = .ok ()) :
      Drives d ⟨.nothing, []⟩ { d with actions := some [] }
  | command {d : Driver ρ} {now : Nat} {command : SessionCommand} {rest : List SessionCommand}
      {actions : List Action} {protocol : ρ} (hselect : d.Selecting)
      (hopen : d.commandsOpen p = true) (hcommands : d.commands = command :: rest)
      (hcall : p.command now command d.protocol = .ok (actions, protocol)) :
      Drives d ⟨.called (.command command) actions, Driver.commandedShown command⟩
        { d with
          protocol
          commands := rest
          native := Driver.commandedPorts command d.native
          actions := some actions }
  | receive {d : Driver ρ} {now : Nat} {message : WireMessage}
      {rest : List (Result (Option WireMessage))} {actions : List Action} {protocol : ρ}
      (hselect : d.Selecting) (hopen : d.canReceive = true)
      (hinbound : d.inbound = .ok (some message) :: rest)
      (hcall : p.receive now message d.protocol = .ok (actions, protocol)) :
      Drives d ⟨.called (.message message) actions, []⟩
        { d with protocol, inbound := rest, actions := some actions }
  | socketEnds {d : Driver ρ} {rest : List (Result (Option WireMessage))} (hselect : d.Selecting)
      (hopen : d.canReceive = true) (hinbound : d.inbound = .ok none :: rest)
      (hfinished : p.finished d.protocol = true) :
      Drives d ⟨.nothing, []⟩
        { d with inbound := rest, socketClosed := true, actions := some [] }
  | heartbeat {d : Driver ρ} (hselect : d.Selecting) (hlooping : d.Looping)
      (hopen : d.socketClosed = false ∧ p.finished d.protocol = false) :
      Drives d ⟨.nothing, []⟩ { d with actions := some [] }
  | send {d : Driver ρ} {message : WireMessage} {rest : List Action}
      (hrunning : d.native.worker = .running)
      (hactions : d.actions = some (.send message :: rest)) :
      Drives d ⟨.performed (.send message), []⟩ { d with actions := some rest }
  | event {d : Driver ρ} {action : Action} {body : SessionEventBody} {rest : List Action}
      {outputs : Outputs} (hfree : d.native.Free) (hactions : d.actions = some (action :: rest))
      (hbody : d.body p action = some body)
      (hevent : d.native.outputs.event body = .ok outputs) :
      Drives d ⟨.performed action, [.accepted ⟨d.native.outputs.sequence, body⟩]⟩
        { d with native := { d.native with outputs }, actions := some rest }
  | media {d : Driver ρ} {chunk : MediaChunk} {rest : List Action} {outputs : Outputs}
      (hfree : d.native.Free) (hactions : d.actions = some (.media chunk :: rest))
      (hmedia : d.native.outputs.queueMedia d.native.minEpoch chunk none = .ok outputs) :
      Drives d ⟨.performed (.media chunk), [.acceptedMedia chunk]⟩
        { d with native := { d.native with outputs }, actions := some rest }
  | close {d : Driver ρ} {rest : List Action} (hrunning : d.native.worker = .running)
      (hactions : d.actions = some (.close :: rest)) :
      Drives d ⟨.performed .close, []⟩ { d with closing := true, actions := some rest }
  | turn {d : Driver ρ} (hfree : d.native.Free) (hactions : d.actions = some []) :
      Drives d ⟨.nothing, if p.finished d.protocol then [.nothing] else []⟩ (d.turned p)
  | closed {d : Driver ρ} (hselect : d.Selecting) (hclosing : d.closing = true)
      (hempty : d.native.outputs.pending = false) :
      Drives d ⟨.returned (.ok ()), [.nothing]⟩ (d.settled (.ok ()))
  | unheard {d : Driver ρ} (hselect : d.Selecting) (hopen : d.commandsOpen p = true)
      (hend : d.hungUp = true ∧ d.commands = []) :
      Drives d ⟨.returned (.ok ()), [.nothing]⟩ (d.settled (.ok ()))
  | fails {d : Driver ρ} {error : Error} (hfree : d.native.Free) (hfails : Fails p d error) :
      Drives d ⟨.returned (.error error), [.nothing]⟩ (d.settled (.error error))

end

namespace Label

def performed (l : Label) : List Action :=
  match l.happened with
  | .performed action => [action]
  | _ => []

def returned (l : Label) : List Action :=
  match l.happened with
  | .called _ actions => actions
  | _ => []

def submitted (l : Label) : List SessionCommand :=
  match l.happened with
  | .submitted command => [command]
  | _ => []

def taken (l : Label) : List SessionCommand :=
  match l.happened with
  | .called (.command command) _ => [command]
  | _ => []

def arrived (l : Label) : List (Result (Option WireMessage)) :=
  match l.happened with
  | .arrived answer => [answer]
  | _ => []

def received (l : Label) : List WireMessage :=
  match l.happened with
  | .called (.message message) _ => [message]
  | _ => []

def calls (l : Label) : Bool :=
  match l.happened with
  | .called .. => true
  | _ => false

end Label

def shownOf (labels : List Label) : List Shown := labels.flatMap Label.shown

/-- The labels since the last message the protocol was called with. -/
def recent (labels : List Label) : List Label :=
  labels.foldl (fun recent l => if l.received.isEmpty then recent ++ [l] else []) []

theorem recent_append (labels : List Label) (l : Label) :
    recent (labels ++ [l]) = if l.received.isEmpty then recent labels ++ [l] else [] := by
  rw [recent, List.foldl_append]
  rfl

@[simp] theorem shownOf_append (xs ys : List Label) :
    shownOf (xs ++ ys) = shownOf xs ++ shownOf ys := List.flatMap_append

variable {ρ : Type} {p : Protocol ρ} {d d' : Driver ρ} {l : Label} {labels : List Label}

theorem Drives.ports (h : Drives p d l d') : Trace Delivery d.native l.shown d'.native := by
  cases h with
  | consume h =>
    rcases h with h | h
    · exact .single (.receive h)
    · exact .single (.receiveMedia h)
  | flush hselect hpending => exact .single (.flush ⟨hselect.running, hselect.still⟩ hpending)
  | poll hwaiting hflush hport hflush' hsame => exact .single hport
  | cancelFlush hwaiting hflush => exact .single (.cancel hflush)
  | flushedEvent hwaiting hrunning hflush hpermit hfront =>
    exact .single (.sendEvent hrunning hflush hpermit hfront)
  | flushedMedia hwaiting hrunning hflush hreserved hfront =>
    exact .single (.sendMedia hrunning hflush hreserved hfront)
  | @command now command rest actions protocol hselect hopen hcommands hcall =>
    show Trace Delivery d.native (Driver.commandedShown command)
      (Driver.commandedPorts command d.native)
    unfold Driver.commandedShown Driver.commandedPorts
    cases command.body with
    | interruptOutput generationId epoch =>
      exact .single (.invalidate ⟨hselect.running, hselect.still⟩)
    | _ => exact .start
  | event hfree hactions hbody hevent => exact .single (.event hfree hevent)
  | media hfree hactions hmedia => exact .single (.media hfree hmedia)
  | turn hfree hactions =>
    show Trace Delivery d.native (if p.finished d.protocol then [.nothing] else [])
      (d.turned p).native
    unfold Driver.turned
    cases p.finished d.protocol with
    | true => exact .single (.endMedia hfree)
    | false => exact .start
  | closed hselect => exact .single (.settle ⟨hselect.running, hselect.still⟩ _)
  | unheard hselect => exact .single (.settle ⟨hselect.running, hselect.still⟩ _)
  | fails hfree => exact .single (.settle hfree _)
  | _ => exact .start

/-- The protocol is called when everything it returned before is executed, and never again after
it has asked to close. -/
structure Executed (labels : List Label) (d : Driver ρ) : Prop where
  executed : labels.flatMap Label.performed ++ d.actions.getD [] = labels.flatMap Label.returned
  sequential : ∀ before l, before ++ [l] <+: labels → l.calls = true →
    before.flatMap Label.performed = before.flatMap Label.returned ∧
      .close ∉ before.flatMap Label.performed
  closing : .close ∈ labels.flatMap Label.performed → d.closing = true

private theorem Executed.uncalled (h : Executed labels d) (hcalls : l.calls = false)
    (hactions : l.performed ++ d'.actions.getD [] = d.actions.getD [])
    (hclosing : (.close ∈ l.performed ∨ d.closing = true) → d'.closing = true) :
    Executed (labels ++ [l]) d' := by
  have hreturned : l.returned = [] := by
    unfold Label.calls at hcalls
    unfold Label.returned
    cases hl : l.happened with
    | called => simp [hl] at hcalls
    | _ => rfl
  constructor
  · rw [List.flatMap_append, List.flatMap_append, List.flatMap_singleton, List.flatMap_singleton,
      hreturned, List.append_nil, List.append_assoc, hactions]
    exact h.executed
  · intro before last hprefix hlast
    rcases List.prefix_concat_iff.mp hprefix with heq | hprefix
    · obtain ⟨-, rfl⟩ := List.append_inj' heq rfl |>.imp_right List.singleton_inj.mp
      rw [hcalls] at hlast
      cases hlast
    · exact h.sequential before last hprefix hlast
  · rw [List.flatMap_append, List.flatMap_singleton, List.mem_append]
    exact fun hmem => hclosing (hmem.symm.imp_right h.closing)

theorem Executed.call (h : Executed labels d) {call : Call} {actions : List Action}
    (hl : l.happened = .called call actions) (hwaiting : d.actions = none)
    (hopen : d.closing = false) (hactions : d'.actions = some actions) :
    Executed (labels ++ [l]) d' := by
  have hperformed : l.performed = [] := by rw [Label.performed, hl]
  have hreturned : l.returned = actions := by rw [Label.returned, hl]
  have hexecuted := h.executed
  rw [hwaiting] at hexecuted
  have hdone : labels.flatMap Label.performed = labels.flatMap Label.returned := by
    simpa using hexecuted
  have hunclosed : .close ∉ labels.flatMap Label.performed := by
    intro hmem
    rw [h.closing hmem] at hopen
    cases hopen
  constructor
  · rw [List.flatMap_append, List.flatMap_append, List.flatMap_singleton, List.flatMap_singleton,
      hperformed, hreturned, List.append_nil, hactions, hdone]
    rfl
  · intro before last hprefix hlast
    rcases List.prefix_concat_iff.mp hprefix with heq | hprefix
    · obtain ⟨rfl, -⟩ := List.append_inj' heq rfl
      exact ⟨hdone, hunclosed⟩
    · exact h.sequential before last hprefix hlast
  · rw [List.flatMap_append, List.flatMap_singleton, hperformed, List.append_nil]
    exact fun hmem => absurd hmem hunclosed

private theorem Driver.commandsOpen_true (h : d.commandsOpen p = true) :
    d.closing = false ∧ p.commandsAllowed d.protocol = true := by
  simpa [Driver.commandsOpen] using h

private theorem Driver.canReceive_true (h : d.canReceive = true) :
    d.socketClosed = false ∧ d.closing = false ∧ d.native.outputs.pending = false := by
  simpa [Driver.canReceive, and_assoc] using h

private theorem Driver.body_ne_close {action : Action} {body : SessionEventBody}
    (h : d.body p action = some body) : action ≠ .close := by
  rintro rfl
  cases h

theorem Executed.step (h : Executed labels d) (hstep : Drives p d l d') :
    Executed (labels ++ [l]) d' := by
  cases hstep with
  | command hselect hopen hcommands hcall =>
    exact h.call rfl hselect.waiting (Driver.commandsOpen_true hopen).1 rfl
  | receive hselect hopen hinbound hcall =>
    exact h.call rfl hselect.waiting (Driver.canReceive_true hopen).2.1 rfl
  | event hfree hactions hbody hevent =>
    refine h.uncalled rfl (by rw [hactions]; rfl) fun hclosing => hclosing.resolve_left ?_
    exact fun hmem => Driver.body_ne_close hbody (List.mem_singleton.mp hmem).symm
  | send hrunning hactions =>
    refine h.uncalled rfl (by rw [hactions]; rfl) fun hclosing => hclosing.resolve_left ?_
    exact fun hmem => nomatch List.mem_singleton.mp hmem
  | media hfree hactions hmedia =>
    refine h.uncalled rfl (by rw [hactions]; rfl) fun hclosing => hclosing.resolve_left ?_
    exact fun hmem => nomatch List.mem_singleton.mp hmem
  | close hrunning hactions => exact h.uncalled rfl (by rw [hactions]; rfl) fun _ => rfl
  | turn hfree hactions =>
    exact h.uncalled rfl (by rw [hactions]; rfl) fun hclosing =>
      hclosing.resolve_left List.not_mem_nil
  | flushedEvent hwaiting | flushedMedia hwaiting =>
    exact h.uncalled rfl (by rw [hwaiting]; rfl) fun hclosing =>
      hclosing.resolve_left List.not_mem_nil
  | socketEnds hselect | heartbeat hselect | deadline hselect =>
    exact h.uncalled rfl (by rw [hselect.waiting]; rfl) fun hclosing =>
      hclosing.resolve_left List.not_mem_nil
  | _ => exact h.uncalled rfl rfl fun hclosing => hclosing.resolve_left List.not_mem_nil

/-- Commands and messages reach the protocol in the order they came in, once each; the end of the
socket is read once at most, and last. -/
structure Channelled (labels : List Label) (d : Driver ρ) : Prop where
  commands : labels.flatMap Label.taken ++ d.commands = labels.flatMap Label.submitted
  messages : (labels.flatMap Label.received).map (fun message => .ok (some message)) ++
    (if d.socketClosed then [.ok none] else []) ++ d.inbound = labels.flatMap Label.arrived

theorem Channelled.same (h : Channelled labels d) (hlabel : l.taken = [] ∧ l.submitted = [] ∧
      l.received = [] ∧ l.arrived = [])
    (hsame : d'.commands = d.commands ∧ d'.socketClosed = d.socketClosed ∧ d'.inbound = d.inbound) :
    Channelled (labels ++ [l]) d' := by
  obtain ⟨htaken, hsubmitted, hreceived, harrived⟩ := hlabel
  obtain ⟨hcommands, hclosed, hinbound⟩ := hsame
  constructor
  · simpa only [List.flatMap_append, List.flatMap_singleton, htaken, hsubmitted, hcommands,
      List.append_nil] using h.commands
  · simpa only [List.flatMap_append, List.flatMap_singleton, hreceived, harrived, hclosed,
      hinbound, List.append_nil] using h.messages

theorem Channelled.step (h : Channelled labels d) (hstep : Drives p d l d') :
    Channelled (labels ++ [l]) d' := by
  obtain ⟨hcommands, hmessages⟩ := h
  cases hstep with
  | submit hroom =>
    constructor
    · simp [Label.taken, Label.submitted, ← hcommands]
    · simpa [Label.received, Label.arrived] using hmessages
  | arrive =>
    constructor
    · simpa [Label.taken, Label.submitted] using hcommands
    · simp [Label.received, Label.arrived, ← hmessages]
  | command hselect hopen hqueue hcall =>
    constructor
    · rw [hqueue] at hcommands
      simpa [Label.taken, Label.submitted] using hcommands
    · simpa [Label.received, Label.arrived] using hmessages
  | receive hselect hopen hinbound hcall =>
    constructor
    · simpa [Label.taken, Label.submitted] using hcommands
    · rw [hinbound, (Driver.canReceive_true hopen).1] at hmessages
      simpa [Label.received, Label.arrived, (Driver.canReceive_true hopen).1] using hmessages
  | socketEnds hselect hopen hinbound hfinished =>
    constructor
    · simpa [Label.taken, Label.submitted] using hcommands
    · rw [hinbound, (Driver.canReceive_true hopen).1] at hmessages
      simpa [Label.received, Label.arrived] using hmessages
  | _ => exact Channelled.same ⟨hcommands, hmessages⟩ ⟨rfl, rfl, rfl, rfl⟩ ⟨rfl, rfl, rfl⟩

/-- Only what was accepted since the last message can be pending. -/
structure Recent (labels : List Label) (d : Driver ρ) : Prop where
  events : d.native.outputs.pendingEvents <:+ accepted (shownOf (recent labels))
  media : (d.native.outputs.pendingMedia.map PendingMedia.chunk).Sublist
    (acceptedMedia (shownOf (recent labels)))

theorem Recent.fewer (h : Recent labels d) (hreceived : l.received = [])
    (haccepted : accepted l.shown = [] ∧ acceptedMedia l.shown = [])
    (hevents : d'.native.outputs.pendingEvents <:+ d.native.outputs.pendingEvents)
    (hmedia : d'.native.outputs.pendingMedia.Sublist d.native.outputs.pendingMedia) :
    Recent (labels ++ [l]) d' := by
  have hshown : shownOf (recent (labels ++ [l])) = shownOf (recent labels) ++ l.shown := by
    rw [recent_append, hreceived, List.isEmpty_nil, if_pos rfl, shownOf_append]
    simp [shownOf]
  constructor
  · rw [hshown, accepted_append, haccepted.1, List.append_nil]
    exact hevents.trans h.events
  · rw [hshown, acceptedMedia_append, haccepted.2, List.append_nil]
    exact (hmedia.map _).trans h.media

theorem Recent.step (h : Recent labels d) (hstep : Drives p d l d') :
    Recent (labels ++ [l]) d' := by
  cases hstep with
  | consume hanswer =>
    rcases hanswer with hanswer | hanswer
    · have hanswers := receive_answers hanswer
      refine h.fewer rfl ⟨hanswers.accepted, hanswers.acceptedMedia⟩ ?_ ?_
      · show _ <:+ _
        rw [hanswers.outputs]
      · show List.Sublist _ _
        rw [hanswers.outputs]
    · rcases receiveMedia_ok hanswer with ⟨packet, rest, -, rfl, hshown⟩ | ⟨-, -, rfl, rfl⟩
      · refine h.fewer rfl ?_ (List.suffix_refl _) (List.Sublist.refl _)
        rcases hshown with ⟨-, rfl⟩ | ⟨-, rfl⟩ <;> exact ⟨rfl, rfl⟩
      · exact h.fewer rfl ⟨rfl, rfl⟩ (List.suffix_refl _) (List.Sublist.refl _)
  | poll hwaiting hflush hport hflush' hsame =>
    refine h.fewer rfl ⟨rfl, rfl⟩ ?_ ?_
    · show _ <:+ _
      rw [hsame.1]
    · show List.Sublist _ _
      rw [hsame.1]
  | flushedEvent hwaiting hrunning hflush hpermit hfront =>
    refine h.fewer rfl ⟨rfl, rfl⟩ ?_ (List.Sublist.refl _)
    rw [hfront]
    exact List.suffix_cons _ _
  | flushedMedia hwaiting hrunning hflush hreserved hfront =>
    refine h.fewer rfl ⟨rfl, rfl⟩ (List.suffix_refl _) ?_
    rw [hfront]
    exact List.sublist_cons_self _ _
  | @command now command rest actions protocol hselect hopen hcommands hcall =>
    have hports : accepted (Driver.commandedShown command) = [] ∧
        acceptedMedia (Driver.commandedShown command) = [] := by
      unfold Driver.commandedShown
      split <;> exact ⟨rfl, rfl⟩
    refine h.fewer rfl hports ?_ ?_
    · show (Driver.commandedPorts command d.native).outputs.pendingEvents <:+ _
      unfold Driver.commandedPorts
      split <;> exact List.suffix_refl _
    · show List.Sublist (Driver.commandedPorts command d.native).outputs.pendingMedia _
      unfold Driver.commandedPorts
      split
      · exact List.filter_sublist
      · exact List.Sublist.refl _
  | receive hselect hopen hinbound hcall =>
    have hempty := (Driver.canReceive_true hopen).2.2
    simp only [Outputs.pending, Bool.or_eq_false_iff, Bool.not_eq_false', List.isEmpty_iff]
      at hempty
    constructor
    · show d.native.outputs.pendingEvents <:+ _
      rw [hempty.1]
      exact List.nil_suffix
    · show List.Sublist (d.native.outputs.pendingMedia.map PendingMedia.chunk) _
      rw [hempty.2]
      exact List.nil_sublist _
  | @event action body rest outputs hfree hactions hbody hevent =>
    have hshown : shownOf (recent (labels ++ [⟨.performed action,
        [.accepted ⟨d.native.outputs.sequence, body⟩]⟩])) = shownOf (recent labels) ++
          [.accepted ⟨d.native.outputs.sequence, body⟩] := by
      rw [recent_append]
      exact shownOf_append _ _
    rw [event_ok hevent]
    constructor
    · rw [hshown, accepted_append]
      obtain ⟨earlier, hearlier⟩ := h.events
      exact ⟨earlier, by rw [← hearlier, List.append_assoc]; rfl⟩
    · rw [hshown, acceptedMedia_append]
      exact h.media.trans (List.sublist_append_left _ _)
  | @media chunk rest outputs hfree hactions hmedia =>
    have hshown : shownOf (recent (labels ++ [⟨.performed (.media chunk),
        [.acceptedMedia chunk]⟩])) = shownOf (recent labels) ++ [.acceptedMedia chunk] := by
      rw [recent_append]
      exact shownOf_append _ _
    constructor
    · rw [hshown, accepted_append]
      show outputs.pendingEvents <:+ _
      rw [(queueMedia_events hmedia).2]
      exact h.events.trans (by simp [accepted])
    · rw [hshown, acceptedMedia_append]
      show List.Sublist (outputs.pendingMedia.map PendingMedia.chunk) _
      rcases queueMedia_ok hmedia with ⟨-, rfl⟩ | ⟨-, -, rfl⟩
      · exact h.media.trans (List.sublist_append_left _ _)
      · rw [List.map_append]
        exact h.media.append (List.Sublist.refl _)
  | turn hfree hactions =>
    refine h.fewer rfl ?_ ?_ ?_
    · show accepted (if p.finished d.protocol then _ else _) = [] ∧ _
      split <;> exact ⟨rfl, rfl⟩
    · show (d.turned p).native.outputs.pendingEvents <:+ _
      unfold Driver.turned
      split <;> exact List.suffix_refl _
    · show List.Sublist (d.turned p).native.outputs.pendingMedia _
      unfold Driver.turned
      split <;> exact List.Sublist.refl _
  | closed | unheard | fails =>
    exact h.fewer rfl ⟨rfl, rfl⟩ List.nil_suffix (List.Sublist.refl _)
  | _ => exact h.fewer rfl ⟨rfl, rfl⟩ (List.suffix_refl _) (List.Sublist.refl _)

/-- A driver that ended well has closed with nothing pending, or nobody could command it. -/
def EndedWell (d : Driver ρ) : Prop :=
  ∀ events, d.native.worker = .settled ⟨events, .ok ()⟩ →
    (d.closing = true ∧ events = [] ∧ d.native.outputs.pendingMedia = []) ∨
      (d.hungUp = true ∧ d.commands = [])

theorem EndedWell.running (h : d'.native.worker = .running) : EndedWell d' := by
  intro events hsettled
  rw [h] at hsettled
  cases hsettled

theorem EndedWell.step (h : EndedWell d) (hstep : Drives p d l d') : EndedWell d' := by
  cases hstep with
  | submit hroom => exact .running hroom.1
  | hangUp => exact fun events hsettled => (h events hsettled).imp_right fun h' => ⟨rfl, h'.2⟩
  | consume hanswer =>
    have hkept : ∀ {shown : Shown} {native : Native}, (d.native.receive = some (shown, native) ∨
        d.native.receiveMedia = some (shown, native)) →
        native.worker = d.native.worker ∧ native.outputs = d.native.outputs := by
      rintro shown native (hanswer | hanswer)
      · exact ⟨(receive_answers hanswer).worker, (receive_answers hanswer).outputs⟩
      · rcases receiveMedia_ok hanswer with ⟨packet, rest, -, rfl, -⟩ | ⟨-, -, rfl, -⟩ <;>
          exact ⟨rfl, rfl⟩
    obtain ⟨hworker, houtputs⟩ := hkept hanswer
    intro events hsettled
    have hend := h events (hworker.symm.trans hsettled)
    rw [← houtputs] at hend
    exact hend
  | poll hwaiting hflush hport hflush' hsame =>
    intro events hsettled
    have hend := h events (hsame.2.2.symm.trans hsettled)
    rw [← hsame.1] at hend
    exact hend
  | @command now command rest actions protocol hselect =>
    apply EndedWell.running
    show (Driver.commandedPorts command d.native).worker = .running
    unfold Driver.commandedPorts
    split <;> exact hselect.running
  | turn hfree =>
    apply EndedWell.running
    unfold Driver.turned
    split <;> exact hfree.1
  | closed hselect hclosing hempty =>
    simp only [Outputs.pending, Bool.or_eq_false_iff, Bool.not_eq_false', List.isEmpty_iff]
      at hempty
    intro events hsettled
    cases hsettled
    exact .inl ⟨hclosing, hempty.1, hempty.2⟩
  | unheard hselect hopen hend => exact fun _ _ => .inr hend
  | fails =>
    intro _ hsettled
    cases hsettled
  | flush hselect | deadline hselect | receive hselect | socketEnds hselect | heartbeat hselect =>
    exact .running hselect.running
  | event hfree | media hfree => exact .running hfree.1
  | flushedEvent hwaiting hrunning | flushedMedia hwaiting hrunning => exact .running hrunning
  | send hrunning | close hrunning => exact .running hrunning
  | arrive | cancelFlush => exact h

/-- The channel of commands is within its limit, and all pending chunks are the driver's own. -/
structure Filled (limits : Limits) (d : Driver ρ) : Prop where
  capacity : d.capacity = limits.maxControlCommands
  commands : d.commands.length ≤ limits.maxControlCommands
  own : ∀ packet ∈ d.native.outputs.pendingMedia, packet.reservation = none

theorem Filled.step {limits : Limits} (h : Filled limits d) (hstep : Drives p d l d') :
    Filled limits d' := by
  have hkeep : ∀ {n : Native}, (∀ packet ∈ n.outputs.pendingMedia,
      packet ∈ d.native.outputs.pendingMedia) →
        ∀ packet ∈ n.outputs.pendingMedia, packet.reservation = none :=
    fun hsub packet hmem => h.own packet (hsub packet hmem)
  cases hstep with
  | submit hroom =>
    refine ⟨h.capacity, ?_, h.own⟩
    rw [List.length_append, List.length_singleton, ← h.capacity]
    exact hroom.2.2
  | consume hanswer =>
    refine ⟨h.capacity, h.commands, hkeep fun packet hmem => ?_⟩
    rcases hanswer with hanswer | hanswer
    · exact (receive_answers hanswer).outputs ▸ hmem
    · rcases receiveMedia_ok hanswer with ⟨packet', rest, -, rfl, -⟩ | ⟨-, -, rfl, -⟩ <;>
        exact hmem
  | poll hwaiting hflush hport hflush' hsame =>
    exact ⟨h.capacity, h.commands, hkeep fun packet hmem => hsame.1 ▸ hmem⟩
  | flushedMedia hwaiting hrunning hflush hreserved hfront =>
    refine ⟨h.capacity, h.commands, hkeep fun packet hmem => ?_⟩
    rw [hfront]
    exact List.mem_cons_of_mem _ hmem
  | @command now command rest actions protocol hselect hopen hcommands =>
    have hcapacity := h.commands
    rw [hcommands, List.length_cons] at hcapacity
    refine ⟨h.capacity, Nat.le_of_succ_le hcapacity, hkeep fun packet hmem => ?_⟩
    change packet ∈ (Driver.commandedPorts command d.native).outputs.pendingMedia at hmem
    unfold Driver.commandedPorts at hmem
    split at hmem
    · exact List.mem_of_mem_filter hmem
    · exact hmem
  | event hfree hactions hbody hevent =>
    obtain rfl := event_ok hevent
    exact ⟨h.capacity, h.commands, h.own⟩
  | media hfree hactions hmedia =>
    refine ⟨h.capacity, h.commands, ?_⟩
    rcases queueMedia_ok hmedia with ⟨-, rfl⟩ | ⟨-, -, rfl⟩
    · exact h.own
    · intro packet hmem
      rcases List.mem_append.mp hmem with hmem | hmem
      · exact h.own packet hmem
      · rw [List.mem_singleton.mp hmem]
  | turn =>
    refine ⟨h.capacity, h.commands, hkeep fun packet hmem => ?_⟩
    unfold Driver.turned at hmem
    split at hmem <;> exact hmem
  | _ => exact ⟨h.capacity, h.commands, h.own⟩

/-- Everything the session holds is within its limits, and what is on its way fits the budget. -/
structure Bounded (limits : Limits) (d : Driver ρ) : Prop where
  ports : Within limits d.native
  commands : d.commands.length ≤ limits.maxControlCommands
  reservable : d.native.Reservable

end Zhir.Models.WebSocket
