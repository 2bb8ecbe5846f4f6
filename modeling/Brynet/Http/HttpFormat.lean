import Brynet.Http.HttpParser
import Brynet.Lib.Text

/-!
# `HttpRequest` and `HttpResponse`

The two classes of `HttpFormat.h` that write a message.  A `std::unordered_map` is the
function it stands for; the order in which `getResult` meets its entries is an argument,
any list that `Enumerates` the map.
-/

namespace Brynet.Http

open Text

/-- `order` has every entry of the map once. -/
structure Enumerates (m : Bytes → Option Bytes) (order : List (Bytes × Bytes)) : Prop where
  nodup : (order.map Prod.fst).Nodup
  mem_iff : ∀ field value, (field, value) ∈ order ↔ m field = some value

/-- The lines that both classes write for their entries. -/
def headText (order : List (Bytes × Bytes)) : Bytes :=
  order.flatMap fun v => v.1 ++ text ": " ++ v.2 ++ text "\r\n"

/-! ## Requests -/

/-- `HttpRequest::HTTP_METHOD`. -/
inductive HttpMethod
  | head
  | get
  | post
  | put
  | delete
  | max
deriving Repr, DecidableEq

/-- `HttpMethodString`; `getResult` writes nothing for `HTTP_METHOD_MAX`. -/
def HttpMethod.string : HttpMethod → Bytes
  | head => text "HEAD"
  | get => text "GET"
  | post => text "POST"
  | put => text "PUT"
  | delete => text "DELETE"
  | max => []

structure HttpRequest where
  mUrl : Bytes
  mQuery : Bytes
  mBody : Bytes
  mMethod : HttpMethod
  mHeadField : Bytes → Option Bytes

namespace HttpRequest

/-- The constructor. -/
def new : HttpRequest where
  mUrl := []
  mQuery := []
  mBody := []
  mMethod := .get
  mHeadField := fun _ => none

/-- `setMethod`; `none` is a failed assertion, which there is not if `ndebug`. -/
def setMethod (ndebug : Bool) (r : HttpRequest) (protocol : HttpMethod) : Option HttpRequest :=
  if ndebug ∨ protocol ≠ .head ∧ protocol ≠ .max then some { r with mMethod := protocol } else none

def addHeadValue (r : HttpRequest) (field value : Bytes) : HttpRequest :=
  { r with mHeadField := Function.update r.mHeadField field (some value) }

def setHost (r : HttpRequest) (host : Bytes) : HttpRequest := r.addHeadValue (text "Host") host

def setUrl (r : HttpRequest) (url : Bytes) : HttpRequest := { r with mUrl := url }

def setCookie (r : HttpRequest) (v : Bytes) : HttpRequest := r.addHeadValue (text "Cookie") v

def setContentType (r : HttpRequest) (v : Bytes) : HttpRequest :=
  r.addHeadValue (text "Content-Type") v

def setQuery (r : HttpRequest) (query : Bytes) : HttpRequest := { r with mQuery := query }

def setBody (r : HttpRequest) (body : Bytes) : HttpRequest :=
  { r with mBody := body }.addHeadValue (text "Content-Length") (toDecimal body.length)

def getResult (r : HttpRequest) (order : List (Bytes × Bytes)) : Bytes :=
  r.mMethod.string ++ text " " ++ r.mUrl ++
    (if r.mQuery = [] then [] else text "?" ++ r.mQuery) ++ text " HTTP/1.1\r\n" ++
    headText order ++ text "\r\n" ++ r.mBody

end HttpRequest

/-- A call of one of the setters of `HttpRequest`. -/
inductive RequestSetter
  | setMethod (protocol : HttpMethod)
  | setHost (host : Bytes)
  | setUrl (url : Bytes)
  | setCookie (v : Bytes)
  | setContentType (v : Bytes)
  | setQuery (query : Bytes)
  | setBody (body : Bytes)
  | addHeadValue (field value : Bytes)
deriving Repr, DecidableEq

def HttpRequest.apply (ndebug : Bool) (r : HttpRequest) : RequestSetter → Option HttpRequest
  | .setMethod protocol => r.setMethod ndebug protocol
  | .setHost host => some (r.setHost host)
  | .setUrl url => some (r.setUrl url)
  | .setCookie v => some (r.setCookie v)
  | .setContentType v => some (r.setContentType v)
  | .setQuery query => some (r.setQuery query)
  | .setBody body => some (r.setBody body)
  | .addHeadValue field value => some (r.addHeadValue field value)

/-- The request after the calls; `none` if an assertion failed. -/
def HttpRequest.applyAll (ndebug : Bool) (calls : List RequestSetter) : Option HttpRequest :=
  calls.foldlM (HttpRequest.apply ndebug) HttpRequest.new

/-! ## Responses -/

/-- `std::to_string` of an `int`. -/
def intText (i : Int32) : Bytes :=
  if i < 0 then text "-" ++ toDecimal i.toInt.natAbs else toDecimal i.toInt.natAbs

/-- `HTTP_RESPONSE_STATUS`: its values are those of `int`, which underlies it. -/
abbrev HttpResponseStatus := Int32

def HttpResponseStatus.ok : HttpResponseStatus := 200

structure HttpResponse where
  mStatus : HttpResponseStatus
  mHeadField : Bytes → Option Bytes
  mBody : Bytes

namespace HttpResponse

/-- The constructor. -/
def new : HttpResponse where
  mStatus := .ok
  mHeadField := fun _ => none
  mBody := []

def setStatus (r : HttpResponse) (status : HttpResponseStatus) : HttpResponse :=
  { r with mStatus := status }

def addHeadValue (r : HttpResponse) (field value : Bytes) : HttpResponse :=
  { r with mHeadField := Function.update r.mHeadField field (some value) }

def setContentType (r : HttpResponse) (v : Bytes) : HttpResponse :=
  r.addHeadValue (text "Content-Type") v

def setBody (r : HttpResponse) (body : Bytes) : HttpResponse :=
  { r with mBody := body }.addHeadValue (text "Content-Length") (toDecimal body.length)

/-- The `switch` of `getResult`: the case of `OK` has no `break`, so it goes on into the
default. -/
def reasonText (status : HttpResponseStatus) : Bytes :=
  (if status = .ok then text " OK" else []) ++ text "UNKNOWN"

def getResult (r : HttpResponse) (order : List (Bytes × Bytes)) : Bytes :=
  text "HTTP/1.1 " ++ intText r.mStatus ++ reasonText r.mStatus ++ text "\r\n" ++
    headText order ++ text "\r\n" ++ r.mBody

end HttpResponse

/-- A call of one of the setters of `HttpResponse`. -/
inductive ResponseSetter
  | setStatus (status : HttpResponseStatus)
  | setContentType (v : Bytes)
  | addHeadValue (field value : Bytes)
  | setBody (body : Bytes)
deriving DecidableEq

def HttpResponse.apply (r : HttpResponse) : ResponseSetter → HttpResponse
  | .setStatus status => r.setStatus status
  | .setContentType v => r.setContentType v
  | .addHeadValue field value => r.addHeadValue field value
  | .setBody body => r.setBody body

def HttpResponse.applyAll (calls : List ResponseSetter) : HttpResponse :=
  calls.foldl HttpResponse.apply HttpResponse.new

end Brynet.Http
