import TrafficGraph.Http.Request
import TrafficGraph.Json.Form
import TrafficGraph.Policy.Manifest

/-!
# The interface for programs

A request is answered with a status and a document.  A manifest with a document
that is not valid, and a body that is not in order, are answered with the reason.
Any other fault breaks the request off.

Replies are defined for any way of decoding a document; `reply` uses YAML.
-/

namespace TrafficGraph
namespace Http

structure Request where
  method : String
  target : String
  body : String
  deriving DecidableEq, Repr

inductive Reply where
  | answer (status : Nat) (body : Value)
  /-- The request was broken off. -/
  | failure (fault : Fault)

namespace Reply

def okStatus : Nat := 200

def unprocessableStatus : Nat := 422

def brokenStatus : Nat := 500

def status : Reply → Nat
  | .answer status _ => status
  | .failure _ => brokenStatus

/-- An answer that tells the reason why another one is not given. -/
def detail (status : Nat) (reason : Value) : Reply :=
  .answer status (.record [("detail", reason)])

def notFound : Reply := detail 404 (.text "Not Found")

def notAllowed : Reply := detail 405 (.text "Method Not Allowed")

def complained (complaints : List Complaint) : Reply :=
  detail unprocessableStatus (.list (complaints.map Complaint.toValue))

def ofFault : Fault → Reply
  | .invalidDocument index message =>
    detail unprocessableStatus (.text (Fault.documentMessage index message))
  | fault => .failure fault

def ofValue (doc : Except Fault Value) : Reply :=
  match doc.bind Json.writtenForm with
  | .ok v => .answer okStatus v
  | .error fault => .failure fault

end Reply

/-- The reply about a manifest: one about its policies, if it is in order. -/
def withPolicies (decode : Manifest.Decoder) (manifest : String)
    (document : List Policy → Except Fault Value) : Reply :=
  match (Manifest.loadWith decode manifest).result with
  | .ok policies => .ofValue (document policies)
  | .error fault => .ofFault fault

def policiesDocument (policies : List Policy) : Except Fault Value :=
  (policies.mapM Policy.toValue).map .list

def graphDocument (deduplicate : Bool) (shown : DirectionFilter) (policies : List Policy) :
    Except Fault Value :=
  (shown.apply (Graph.compile deduplicate policies)).toValue

def replyPolicies (decode : Manifest.Decoder) (body : String) : Reply :=
  match (readBody body).bind readManifest with
  | .ok manifest => withPolicies decode manifest policiesDocument
  | .error complaints => .complained complaints

/-- The reply of the route for graphs.  Policies share nodes and links as the
query says, or else as the settings do. -/
def replyGraph (decode : Manifest.Decoder) (deduplicate : Bool) (body : String) : Reply :=
  match (readBody body).bind readGraphQuery with
  | .ok query =>
    withPolicies decode query.manifest
      (graphDocument (query.deduplicate.getD deduplicate) query.shown)
  | .error complaints => .complained complaints

def Route.reply (decode : Manifest.Decoder) (deduplicate : Bool) (body : String) : Route → Reply
  | .policies => replyPolicies decode body
  | .graph => replyGraph decode deduplicate body
  | .page => .answer Reply.okStatus .null

/-- Reply to a request.  `deduplicate` is what the settings say about sharing. -/
def replyWith (decode : Manifest.Decoder) (deduplicate : Bool) (request : Request) : Reply :=
  match routeOf? request.target with
  | none => .notFound
  | some route =>
    if route.methods.contains request.method then route.reply decode deduplicate request.body
    else .notAllowed

def reply (deduplicate : Bool) (request : Request) : Reply :=
  replyWith Manifest.yaml deduplicate request

end Http
end TrafficGraph
