import ChordSearch.Gateway.Operator
import ChordSearch.Gateway.Metadata
import ChordSearch.Json.Read
import ChordSearch.Node.Exposition
import ChordSearch.Json.Value

/-! # The HTTP gateway

The gateway answers HTTP requests about one node:

* `/health` answers `{"status":"ok"}`;
* under `/api/`, `GET /api/v1/ring`, `/api/v1/fingers` and `/api/v1/documents` read the node,
  and `POST /api/v1/commands` runs the operator line in a body `{"command": ...}`;
  every answer there carries the cross-origin headers, and a preflight (`OPTIONS`) is
  answered at once;
* `/api/ws` is the event stream, which only a WebSocket handshake opens;
* `/metrics`, when the gateway serves metrics, is the node's metrics page.

Paths are cleaned first (`.`, `..` and repeated slashes): an unclean path, and `/api`
without its slash, are redirected. Under `/api/`, a path served for another method is not
implemented and any other path is not found. A failure there answers the status as JSON,
`{"code","message","details"}`, under the HTTP status of its code; a command line needs the
gateway's token in `x-auth-token` when the gateway has one. Every answer carries a request
id: the one the request brought, or a new one.
-/

/-! ## The event hub

The hub fans updates out to the clients of the event stream, one JSON text per update.
Broadcasting writes the update as JSON and queues it; a hub that runs takes each update off
the queue at once and hands it to every client. The queue holds `capacity` updates; while the
hub does not run, updates beyond that are dropped rather than refused, so a broadcast fails
only when the update has no JSON form.

Stopping closes every client, and a stopped hub never runs again.
-/

namespace ChordSearch

/-- An update to broadcast: a value, or something that has no JSON form. -/
inductive Update where
  | value (v : Value)
  | unencodable

/-- The event hub: whether it runs, whether it was stopped, the updates waiting, and the
clients connected. -/
structure Hub where
  running : Bool := false
  stopped : Bool := false
  waiting : List Bytes := []
  clients : Nat := 0

namespace Hub

/-- How many updates wait at most. -/
def capacity : Nat := 256

/-- Whether updates are taken off the queue as they come. -/
def draining (h : Hub) : Bool := h.running && !h.stopped

/-- Start delivering; a stopped hub stays stopped. -/
def run (h : Hub) : Hub := if h.stopped then h else { h with running := true }

/-- Broadcast an update: refused when it has no JSON form, otherwise delivered, queued, or
dropped when the queue is full. -/
def broadcast (h : Hub) : Update → Except Unit Hub
  | .unencodable => .error ()
  | .value v =>
    if h.draining then .ok h
    else if h.waiting.length < capacity then
      .ok { h with waiting := h.waiting ++ [Bytes.ofString v.text] }
    else .ok h

/-- Stop: every client is closed. Stopping again changes nothing. -/
def stop (h : Hub) : Hub := { h with stopped := true, clients := 0 }

end Hub

end ChordSearch

namespace ChordSearch

/-- An HTTP request: method, path (with any query), headers and body. -/
structure Request where
  method : String
  path : String
  headers : List (String × String) := []
  body : Bytes := []

/-- An HTTP response: status, content type (empty for none), body, whether the
cross-origin headers are set, and the request id. -/
structure Response where
  status : Nat
  contentType : String := ""
  body : Bytes := []
  cors : Bool := false
  requestId : Bytes := []

/-- The HTTP status that answers a call status. -/
def StatusCode.httpStatus : StatusCode → Nat
  | .ok => 200 | .canceled => 499 | .unknown => 500 | .invalidArgument => 400
  | .deadlineExceeded => 504 | .notFound => 404 | .alreadyExists => 409
  | .permissionDenied => 403 | .unauthenticated => 401 | .resourceExhausted => 429
  | .failedPrecondition => 400 | .aborted => 409 | .outOfRange => 400
  | .unimplemented => 501 | .internal => 500 | .unavailable => 503 | .dataLoss => 500

namespace Request

/-- The first value of a header, its name compared without regard to case. -/
def header? (r : Request) (name : String) : Option String :=
  (r.headers.find? fun (k, _) => k.toLower = name.toLower).map (·.2)

/-- The path without its query. -/
def route (r : Request) : String := String.ofList (r.path.toList.takeWhile (· ≠ '?'))

end Request

namespace Http

/-- The segments of a path after cleaning: `.` and empty segments dropped, `..` dropping
the segment before it. -/
def cleanSegments (segs : List String) : List String :=
  (segs.foldl (fun acc s =>
    if s = "" ∨ s = "." then acc
    else if s = ".." then acc.drop 1
    else s :: acc) []).reverse

/-- A path cleaned, keeping a final slash. -/
def cleanPath (p : String) : String :=
  let p := if p.startsWith "/" then p else "/" ++ p
  let np := "/" ++ "/".intercalate (cleanSegments (p.splitOn "/"))
  if p.endsWith "/" ∧ np ≠ "/" then np ++ "/" else np

/-- A JSON answer. -/
def json (status : Nat) (v : Value) : Response :=
  { status, contentType := "application/json", body := Bytes.ofString v.text }

/-- The JSON answer for a failed call. -/
def failure (st : Status) : Response :=
  json st.code.httpStatus (.obj [(Bytes.ofString "code", .num (toString st.code.number)),
    (Bytes.ofString "message", .str (Bytes.ofString st.message)), (Bytes.ofString "details", .arr [])])

/-- A plain-text error answer. -/
def plain (status : Nat) (text : String) : Response :=
  { status, contentType := "text/plain; charset=utf-8", body := Bytes.ofString (text ++ "\n") }

/-- A permanent redirect; a `GET` gets a short page, a `HEAD` only its type. -/
def redirect (method target : String) : Response :=
  if method = "GET" then
    { status := 301, contentType := "text/html; charset=utf-8",
      body := Bytes.ofString ("<a href=\"" ++ target ++ "\">Moved Permanently</a>.\n\n") }
  else if method = "HEAD" then { status := 301, contentType := "text/html; charset=utf-8" }
  else { status := 301 }

/-- The routes under `/api/`: method and path. -/
def apiRoutes : List (String × String) :=
  [("GET", "/api/v1/ring"), ("GET", "/api/v1/fingers"), ("GET", "/api/v1/documents"),
   ("POST", "/api/v1/commands")]

end Http

/-- A node reference in a view: empty when unset. -/
def NodeRef.view (r : NodeRef) : Value :=
  if r.isUnset then .obj []
  else .obj [(Bytes.ofString "num", .num (toString r.num.toNat)), (Bytes.ofString "address", .str r.addr.toBytes),
    (Bytes.ofString "id", .str (Bytes.ofString r.id.toHex))]

/-- The ring state of a node as a view. -/
def Node.stateView (n : Node) : Value :=
  let num (k : Nat) : Value := .num (toString k)
  .obj [(Bytes.ofString "self", n.self.view), (Bytes.ofString "successor", n.ring.successor.view),
    (Bytes.ofString "predecessor", n.ring.predecessor.view), (Bytes.ofString "in_ring", .bool n.ring.inRing),
    (Bytes.ofString "joining", .bool n.ring.joining), (Bytes.ofString "finger_count", num n.ring.fingers.size),
    (Bytes.ofString "pending_pings", num n.ring.pings.size),
    (Bytes.ofString "pending_lookups", num n.search.lookups.size),
    (Bytes.ofString "pending_searches", num n.search.searches.size),
    (Bytes.ofString "stored_terms", num n.search.store.size),
    (Bytes.ofString "unpublished", .arr (n.search.index.terms.map .str))]

/-- The finger table of a node as a view. -/
def Node.fingersView (n : Node) : Value :=
  .obj [(Bytes.ofString "fingers", .arr (n.ring.fingers.toList.map fun f =>
    .obj [(Bytes.ofString "index", .num (toString f.index)), (Bytes.ofString "start", .str (Bytes.ofString f.start.toHex)),
      (Bytes.ofString "owner", f.owner.view)]))]

/-- The documents a node stores, by term, as a view. -/
def Node.documentsView (n : Node) : Value :=
  .obj [(Bytes.ofString "terms", .obj (n.search.store.map.entries.map fun (t, ds) =>
    (t, .arr (ds.toList.map .str))))]

/-- The gateway of a node: the token command lines need, whether it serves metrics, and
how many requests it has answered. -/
structure Gateway where
  token : Bytes := []
  metrics : Bool := false
  served : Nat := 0

namespace Gateway

/-- The status of a refused body. -/
def malformed (detail : String) : Status :=
  ⟨.invalidArgument, "malformed request body: " ++ detail⟩

/-- The operator line in a command body, or the status of its refusal. -/
def commandOf (body : Bytes) : Except Status Bytes :=
  match Value.readFirst body with
  | .error e => .error (malformed e.streamMessage)
  | .ok (v, _) =>
    match v with
    | .obj _ =>
      match v.member? "command" with
      | some (.str s) => if s.isEmpty then .error ⟨.invalidArgument, "command is required"⟩ else .ok s
      | _ => .error ⟨.invalidArgument, "command is required"⟩
    | other =>
      let token := match other with
        | .str s => Value.quote s
        | .arr _ => "["
        | o => o.text
      .error (malformed ("proto: syntax error (line 1:1): unexpected token " ++ token))

/-- Answer a route under `/api/` with the node's view or the status of the refusal. -/
def readView (d : Daemon) (f : Node → Value) : Response :=
  match d.query f with
  | .ok v => Http.json 200 v
  | .error e => Http.failure (Status.ofFailure e.causes e.message)

/-- Answer a request under `/api/` other than a preflight. -/
def api (g : Gateway) (d : Daemon) (r : Request) (path : String) : Response × Daemon :=
  if r.method = "GET" ∧ path = "/api/v1/ring" then (readView d Node.stateView, d)
  else if r.method = "GET" ∧ path = "/api/v1/fingers" then (readView d Node.fingersView, d)
  else if r.method = "GET" ∧ path = "/api/v1/documents" then (readView d Node.documentsView, d)
  else if r.method = "POST" ∧ path = "/api/v1/commands" then
    if !g.token.isEmpty ∧ (r.header? Metadata.authKey).map Bytes.ofString ≠ some g.token then
      (Http.failure ⟨.unauthenticated, "invalid or missing auth token"⟩, d)
    else match commandOf r.body with
      | .error st => (Http.failure st, d)
      | .ok line =>
        match OperatorServer.execute d line with
        | (.ok out, d) => (Http.json 200 (.obj [(Bytes.ofString "output", .str out)]), d)
        | (.error st, d) => (Http.failure st, d)
  else if Http.apiRoutes.any (·.2 = path) then
    (Http.failure ⟨.unimplemented, "Method Not Allowed"⟩, d)
  else (Http.failure ⟨.notFound, "Not Found"⟩, d)

/-- Answer a request once its path is clean. -/
def dispatch (g : Gateway) (d : Daemon) (r : Request) (path : String) : Response × Daemon :=
  if path = "/health" then (Http.json 200 (.obj [(Bytes.ofString "status", .str (Bytes.ofString "ok"))]), d)
  else if path = "/api/ws" then (Http.plain 400 "Bad Request", d)
  else if path = "/metrics" ∧ g.metrics then
    match d.node? with
    | some n =>
      ({ status := 200, contentType := Exposition.contentType, body := Bytes.ofString n.metrics.page }, d)
    | none => ({ status := 200, contentType := Exposition.contentType }, d)
  else if path.startsWith "/api/" then
    if r.method = "OPTIONS" then ({ status := 200, cors := true }, d)
    else
      let (resp, d) := g.api d r path
      ({ resp with cors := true }, d)
  else (Http.plain 404 "404 page not found", d)

/-- Answer a request: redirect an unclean path, route a clean one, and give the answer a
request id. -/
def serve (g : Gateway) (d : Daemon) (r : Request) : Response × Gateway × Daemon :=
  let id := match r.header? Metadata.requestKey with
    | some v => if v.isEmpty then requestIdOf g.served else Bytes.ofString v
    | none => requestIdOf g.served
  let g := { g with served := g.served + 1 }
  let raw := r.route
  let path := Http.cleanPath raw
  let (resp, d) :=
    if path = "/api" then (Http.redirect r.method "/api/", d)
    else if path ≠ raw then (Http.redirect r.method path, d)
    else g.dispatch d r path
  ({ resp with requestId := id }, g, d)

end Gateway

end ChordSearch
