import AgentReply.Client.EventsTask
import AgentReply.Http.Body
import AgentReply.Http.Request
import AgentReply.Url.Resolve

/-!
# Fetching event streams

The work on the network for the task of an event stream. The stream is asked for, the response is followed
to other places if need be, and what arrives is taken apart. How it goes is reported to the task.
-/

namespace AgentReply

namespace Fetch

inductive Phase where
  | dialing
  /-- Some of the head of the response has arrived. -/
  | head (held : List UInt8)
  | stream (body : Http.Body) (reader : EventStream.Reader)
  /-- Some of the body of a response without success has arrived. -/
  | refusal (charset : Charset) (body : Http.Body) (text : List UInt8)
  | over

end Fetch

structure Fetch where
  /-- The URL that was asked for first. -/
  url : Url
  /-- The URL that is asked for now. -/
  place : Url := url
  redirects : Nat := 0
  phase : Fetch.Phase := .dialing

namespace Fetch

open EventsTask (Report)

/-- What a fetch asks for, what it reports, and how it goes on. -/
structure Turn where
  actions : List Action := []
  reports : List Report := []
  fetch : Fetch

def maxRedirects : Nat := 10

def maxFields : Nat := 100

/-- The URL as errors show it, without its user. -/
def shownUrl (u : Url) : String := { u with username := [], password := [] : Url }.text

def request (u : Url) : List UInt8 :=
  Http.octetsOf <|
    Http.request u [("accept", "text/event-stream"), ("host", Http.hostField u)]

/-- Reports something and goes on with a phase. -/
def tell (f : Fetch) (reports : List Report) (phase : Phase) : Turn :=
  { reports := reports, fetch := { f with phase := phase } }

def failRequest (f : Fetch) (problem : String) (u : Url) : Turn :=
  f.tell [.unanswered s!"{problem} for url ({shownUrl u})"] .over

def failSending (f : Fetch) : Turn := f.failRequest "error sending request" f.url

def brokenBody : Report := .broken (EventStream.Error.transport "error decoding response body").message

/-- What is reported of the end of a stream. -/
def ending (reader : EventStream.Reader) : Report :=
  reader.endError?.elim .ended fun error ↦ .broken error.message

/-- A body that breaks off does not count. -/
def refuse (f : Fetch) (charset : Charset) (body : Http.Body) (text : List UInt8) : Turn :=
  match body with
  | .finished => f.tell [.body (some (charset.decode text))] .over
  | .broken => f.tell [.body none] .over
  | body => f.tell [] (.refusal charset body text)

def stream (f : Fetch) (body : Http.Body) (reader : EventStream.Reader) (octets : List UInt8) : Turn :=
  let (content, body) := body.feed octets
  match reader.feed? content with
  | none => f.tell [.crashed] .over
  | some (items, reader) =>
    match body with
    | .finished => f.tell (items.map .item ++ [ending reader]) .over
    | .broken => f.tell (items.map .item ++ [brokenBody]) .over
    | body => f.tell (items.map .item) (.stream body reader)

def follow (f : Fetch) (place : Url) : Turn :=
  if maxRedirects ≤ f.redirects then f.failRequest "error following redirect" f.place
  else if place.scheme != "http" && place.scheme != "https" then f.failRequest "builder error" place
  else
    { actions := [.hangUp, .dial place]
      fetch := { f with place := place, redirects := f.redirects + 1, phase := .dialing } }

/-- Puts a report in front of the others. -/
def Turn.after (turn : Turn) (r : Report) : Turn := { turn with reports := r :: turn.reports }

variable [Idna]

def redirection? (f : Fetch) (h : Http.Head) : Option Url :=
  if Http.isRedirect h.status then
    (h.get? "location").bind fun location ↦ f.place.join? (Http.textOf location)
  else none

def respond (f : Fetch) (h : Http.Head) (rest : List UInt8) : Turn :=
  match Http.Body.ofHead? h, f.redirection? h with
  | none, _ => f.failSending
  | some _, some place => f.follow place
  | some body, none =>
    if Http.isSuccess h.status then (f.stream body {} rest).after (.answered h.status)
    else
      let (content, body) := body.feed rest
      (f.refuse h.charset body content).after (.answered h.status)

/-- Takes what has arrived of the head. Heads that only say that the response is on its way are passed
over. -/
def readHead (f : Fetch) (s : List UInt8) : Turn :=
  match Http.Head.read maxFields s with
  | .error _ => f.failSending
  | .ok none => f.tell [] (.head s)
  | .ok (some (h, rest)) =>
    if h.status < 100 then f.failSending
    else if h.status < 200 && h.status != 101 then
      if rest.length < s.length then f.readHead rest else f.failSending
    else f.respond h rest
termination_by s.length

def finish (f : Fetch) : Turn :=
  match f.phase with
  | .dialing | .head _ => f.failSending
  | .stream body reader =>
    match body.finish with
    | .finished => f.tell [ending reader] .over
    | _ => f.tell [brokenBody] .over
  | .refusal charset body text => f.refuse charset body.finish text
  | .over => { fetch := f }

def lose (f : Fetch) : Turn :=
  match f.phase with
  | .dialing | .head _ => f.failSending
  | .stream _ _ => f.tell [brokenBody] .over
  | .refusal charset _ text => f.refuse charset .broken text
  | .over => { fetch := f }

def step (f : Fetch) : Stimulus → Turn
  | .connected =>
    match f.phase with
    | .dialing =>
      { actions := [.transmit (request f.place)], fetch := { f with phase := .head [] } }
    | _ => { fetch := f }
  | .unreachable _ =>
    match f.phase with
    | .dialing => f.failSending
    | _ => { fetch := f }
  | .arrived octets =>
    match f.phase with
    | .dialing | .over => { fetch := f }
    | .head held => f.readHead (held ++ octets)
    | .stream body reader => f.stream body reader octets
    | .refusal charset body text =>
      let (content, body) := body.feed octets
      f.refuse charset body (text ++ content)
  | .ended => f.finish
  | .lost _ | .unsent _ => f.lose
  | .message _ => { fetch := f }
  | .cancelled => f.tell [] .over

end Fetch
end AgentReply
