import Tombstone.Signature
import Tombstone.LogUploads

/- What goes over the wire for a job (`transport_curl.cpp`).

   There are three requests: a JSON body with the token, a session log by a plain PUT, a session
   log by a form with the policy of its grant. What comes back is a choice of the environment.

   A C string given to curl ends at its first NUL byte; a body is given with its size. -/
namespace Tombstone.Transport
open Signature LogGrant

/-- What curl reads of a C string. -/
def cString (text : Bytes) : Bytes := text.takeWhile (· != 0)

inductive Method
  | post
  | put
  deriving DecidableEq

/-- One part of a form. -/
structure FormPart where
  name : Bytes
  filename : Option Bytes := none
  contentType : Option Bytes := none
  data : Bytes
  deriving DecidableEq

inductive Payload
  | body (bytes : Bytes)
  | form (parts : List FormPart)
  deriving DecidableEq

structure Request where
  method : Method
  url : Bytes
  headers : List Bytes := []
  payload : Payload
  deriving DecidableEq

/-- The line that authorises a request. -/
def authorization (token : Bytes) : Bytes := cString (lit "Authorization: Bearer " ++ token)

/-- The line that signs a request. -/
def signatureHeader (token body : Bytes) (unixSeconds : BitVec 64) : Bytes :=
  cString (lit "X-Tombstack-Signature: " ++ buildIngestSignatureHeader token body unixSeconds)

/-- `post_json`, at this second of the clock. -/
def postJson (url token body : Bytes) (unixSeconds : BitVec 64) (sign : Bool) : Request :=
  { method := .post, url := cString url, payload := .body body
    headers := [lit "Content-Type: application/json", authorization token] ++
      if sign then [signatureHeader token body unixSeconds] else [] }

/-- `put_text`. -/
def putText (url bytes : Bytes) : Request :=
  { method := .put, url := cString url, headers := [lit "Content-Type: text/plain"]
    payload := .body bytes }

/-- The last part of a log's form. -/
def logPart (bytes : Bytes) : FormPart :=
  { name := lit "file", filename := some (lit "session.log"), contentType := some (lit "text/plain")
    data := bytes }

/-- `post_log`: without fields there is no policy, and nothing is sent. -/
def postLog (url : Bytes) (fields : List (Bytes × Bytes)) (bytes : Bytes) : Option Request :=
  if fields.isEmpty then none
  else some
    { method := .post, url := cString url
      payload := .form (fields.map (fun f => { name := cString f.1, data := f.2 }) ++ [logPart bytes]) }

/-- What `process` puts on the wire. -/
def send (token : Bytes) (unixSeconds : BitVec 64) : TransportCall → Option Request
  | .putText url raw => some (putText url raw)
  | .postLog url formFields raw => postLog url formFields raw
  | .postJson url body signBody => some (postJson url token body unixSeconds signBody)

end Tombstone.Transport
