import Brynet.Http.HttpFormat
import Mathlib.Data.List.Induction

/-!
# Reading what `HttpRequest` and `HttpResponse` write

A reader of messages by the grammar of HTTP/1.1, and what it makes of `getResult`.  The
start line ends at the first CRLF and is divided at its spaces; the header lines up to
the blank one are divided at the first `": "`; then come as many bytes of body as the
header `Content-Length` says, in whatever letter case.

A request is read back as it was set, if its setters return and its method is one of the
grammar (`getResult_read_back`).  With assertions the setter of the method does not return
for `HEAD`, which `getResult` knows, so there are requests that cannot be written
(`readsBack_iff`).  A response is never read back: its status line is not that of the
grammar for any status (`getResult_not_read_back`).
-/

namespace Brynet.Http

open Text

/-! ## The reader -/

/-- The header lines up to the blank line, and what is behind it. -/
def readHeads (input : Bytes) : Option (List (Bytes × Bytes) × Bytes) :=
  match _hcut : cut (text "\r\n") input with
  | none => none
  | some (line, rest) =>
      if line = [] then some ([], rest)
      else
        (cut (text ": ") line).bind fun head =>
          (readHeads rest).map fun read => (head :: read.1, read.2)
termination_by input.length
decreasing_by exact length_snd_of_cut (by decide) _hcut

/-- The length of the body, which is 0 if no header says so. -/
def contentLength (heads : List (Bytes × Bytes)) : Option ℕ :=
  match heads.find? fun head => lowerCase head.1 = text "content-length" with
  | none => some 0
  | some head => ofDecimal head.2

/-- The body, and what is behind it. -/
def readBody (heads : List (Bytes × Bytes)) (input : Bytes) : Option (Bytes × Bytes) :=
  (contentLength heads).bind fun length =>
    if length ≤ input.length then some (input.take length, input.drop length) else none

/-- A message without its start line. -/
structure ReadRest where
  heads : List (Bytes × Bytes)
  body : Bytes
  leftOver : Bytes
deriving Repr, DecidableEq

def readRest (input : Bytes) : Option ReadRest :=
  (readHeads input).bind fun read =>
    (readBody read.1 read.2).map fun body => ⟨read.1, body.1, body.2⟩

structure ReadRequest extends ReadRest where
  method : Bytes
  url : Bytes
  query : Bytes
deriving Repr, DecidableEq

/-- `tchar` of the grammar; 96 is the backquote. -/
def isTokenChar (c : UInt8) : Bool :=
  isAlphanum c ||
    isOneOf ['!', '#', '$', '%', '&', '\'', '*', '+', '-', '.', '^', '_', '|', '~'] c || c == 96

/-- `token` of the grammar, which is not empty. -/
def isToken (word : Bytes) : Bool := word != [] && word.all isTokenChar

/-- Method, URL and query of a request line. -/
def readRequestLine (line : Bytes) : Option (Bytes × Bytes × Bytes) :=
  (cut (text " ") line).bind fun (method, line) =>
    (cut (text " ") line).bind fun (target, version) =>
      if isToken method ∧ version = text "HTTP/1.1" then
        some (method, (cut (text "?") target).getD (target, []))
      else none

def readRequest (input : Bytes) : Option ReadRequest :=
  (cut (text "\r\n") input).bind fun (line, input) =>
    (readRequestLine line).bind fun (method, url, query) =>
      (readRest input).map fun rest => { rest with method := method, url := url, query := query }

structure ReadResponse extends ReadRest where
  code : ℕ
  reason : Bytes
deriving Repr, DecidableEq

/-- Code and reason of a status line. -/
def readStatusLine (line : Bytes) : Option (ℕ × Bytes) :=
  (cut (text " ") line).bind fun (version, line) =>
    if version = text "HTTP/1.1" then
      (cut (text " ") line).bind fun (code, reason) =>
        (ofDecimal code).map fun code => (code, reason)
    else none

def readResponse (input : Bytes) : Option ReadResponse :=
  (cut (text "\r\n") input).bind fun (line, input) =>
    (readStatusLine line).bind fun (code, reason) =>
      (readRest input).map fun rest => { rest with code := code, reason := reason }

/-! ## Delimiters -/

theorem text_crlf : text "\r\n" = [13, 10] := by decide

theorem text_space : text " " = [32] := by decide

theorem text_colon : text ": " = [58, 32] := by decide

theorem text_question : text "?" = [63] := by decide

theorem cut_crlf {line : Bytes} (h : 13 ∉ line) (rest : Bytes) :
    cut (text "\r\n") (line ++ (text "\r\n" ++ rest)) = some (line, rest) := by
  rw [text_crlf]
  exact cut_append h rest

theorem cut_space {word : Bytes} (h : 32 ∉ word) (rest : Bytes) :
    cut (text " ") (word ++ (text " " ++ rest)) = some (word, rest) := by
  rw [text_space]
  exact cut_append h rest

theorem cut_colon {field : Bytes} (h : 58 ∉ field) (value : Bytes) :
    cut (text ": ") (field ++ (text ": " ++ value)) = some (field, value) := by
  rw [text_colon]
  exact cut_append h value

/-! ## Headers and body -/

theorem lookup_of_mem {order : List (Bytes × Bytes)} (hnodup : (order.map Prod.fst).Nodup)
    {field value : Bytes} (hmem : (field, value) ∈ order) : order.lookup field = some value := by
  induction order with
  | nil => cases hmem
  | cons v order ih =>
      obtain ⟨field', value'⟩ := v
      rw [List.map_cons, List.nodup_cons] at hnodup
      rcases List.mem_cons.mp hmem with heq | hrest
      · obtain ⟨rfl, rfl⟩ := Prod.mk.inj heq
        exact List.lookup_cons_self
      · have hne : (field == field') = false := by
          rw [beq_eq_false_iff_ne]
          rintro rfl
          exact hnodup.1 (List.mem_map.mpr ⟨(field, value), hrest, rfl⟩)
        rw [List.lookup_cons, hne]
        exact ih hnodup.2 hrest

/-- The entries of a map, looked up in an order of it. -/
theorem Enumerates.lookup {m : Bytes → Option Bytes} {order : List (Bytes × Bytes)}
    (h : Enumerates m order) (field : Bytes) : order.lookup field = m field := by
  cases hvalue : m field with
  | some value => exact lookup_of_mem h.nodup ((h.mem_iff _ _).mpr hvalue)
  | none =>
      rw [List.lookup_eq_none_iff]
      intro v hv
      rw [bne_iff_ne]
      rintro rfl
      have hsome := (h.mem_iff v.1 v.2).mp hv
      rw [hvalue] at hsome
      cases hsome

/-- A map with one entry. -/
theorem Enumerates.single (field value : Bytes) :
    Enumerates (Function.update (fun _ => none) field (some value)) [(field, value)] := by
  refine ⟨by simp, fun field' value' => ?_⟩
  rw [List.mem_singleton, Prod.mk.injEq]
  by_cases hfield : field' = field
  · subst hfield
    simp [eq_comm]
  · simp [hfield]

/-- An order of the entries after one of them was set. -/
theorem Enumerates.update {m : Bytes → Option Bytes} {order : List (Bytes × Bytes)}
    (h : Enumerates m order) (field value : Bytes) :
    Enumerates (Function.update m field (some value))
      (order.filter (fun v => v.1 ≠ field) ++ [(field, value)]) := by
  constructor
  · rw [List.map_append, List.nodup_append]
    refine ⟨h.nodup.sublist (List.filter_sublist.map _), by simp, ?_⟩
    intro name hname other hother heq
    obtain ⟨v, hv, rfl⟩ := List.mem_map.mp hname
    obtain rfl := List.mem_singleton.mp hother
    exact of_decide_eq_true (List.mem_filter.mp hv).2 heq
  · intro field' value'
    rw [List.mem_append, List.mem_filter, List.mem_singleton, h.mem_iff, Prod.mk.injEq]
    by_cases hfield : field' = field
    · subst hfield
      simp [eq_comm]
    · simp [hfield]

/-- An entry whose line is read back. -/
structure LegalHead (field value : Bytes) : Prop where
  field_ne_nil : field ≠ []
  colon : 58 ∉ field
  field_cr : 13 ∉ field
  value_cr : 13 ∉ value

theorem readHeads_eq {input line rest : Bytes} (h : cut (text "\r\n") input = some (line, rest)) :
    readHeads input =
      if line = [] then some ([], rest)
      else
        (cut (text ": ") line).bind fun head =>
          (readHeads rest).map fun read => (head :: read.1, read.2) := by
  rw [readHeads]
  split
  · rename_i hnone
    rw [h] at hnone
    cases hnone
  · rename_i line' rest' hsome
    obtain ⟨rfl, rfl⟩ := Prod.mk.inj (Option.some.inj (h.symm.trans hsome))
    rfl

/-- **All header lines.**  By induction over them: the line of an entry is not empty, and
is divided into the entry. -/
theorem readHeads_headText (order : List (Bytes × Bytes))
    (h : ∀ v ∈ order, LegalHead v.1 v.2) (rest : Bytes) :
    readHeads (headText order ++ (text "\r\n" ++ rest)) = some (order, rest) := by
  induction order with
  | nil => exact readHeads_eq (cut_crlf List.not_mem_nil rest)
  | cons v order ih =>
      have hlegal := h v List.mem_cons_self
      have hcr : 13 ∉ v.1 ++ (text ": " ++ v.2) := by
        rw [text_colon]
        simp [hlegal.field_cr, hlegal.value_cr]
      have hne : v.1 ++ (text ": " ++ v.2) ≠ [] := by simp [hlegal.field_ne_nil]
      have htext : headText (v :: order) ++ (text "\r\n" ++ rest) =
          (v.1 ++ (text ": " ++ v.2)) ++
            (text "\r\n" ++ (headText order ++ (text "\r\n" ++ rest))) := by
        simp [headText]
      rw [htext, readHeads_eq (cut_crlf hcr _), if_neg hne, cut_colon hlegal.colon,
        ih fun w hw => h w (List.mem_cons_of_mem _ hw)]
      rfl

/-- The entries of a message and its body fit together: every line is read back, and if
there is a body then `Content-Length` says how long it is, in this spelling only. -/
structure Framed (m : Bytes → Option Bytes) (body : Bytes) : Prop where
  legal : ∀ field value, m field = some value → LegalHead field value
  length : ∀ field value, m field = some value → lowerCase field = text "content-length" →
    field = text "Content-Length" ∧ value = toDecimal body.length
  absent : m (text "Content-Length") = none → body = []

theorem Framed.contentLength {m : Bytes → Option Bytes} {body : Bytes} (h : Framed m body)
    {order : List (Bytes × Bytes)} (horder : Enumerates m order) :
    contentLength order = some body.length := by
  rw [Http.contentLength]
  cases hfind : order.find? fun head => lowerCase head.1 = text "content-length" with
  | none =>
      have hnone : m (text "Content-Length") = none := by
        rw [Option.eq_none_iff_forall_not_mem]
        intro value hvalue
        have hmem := (horder.mem_iff _ _).mpr hvalue
        exact absurd (List.find?_eq_none.mp hfind _ hmem) (by simp; decide)
      rw [h.absent hnone]
      rfl
  | some head =>
      have hmem := List.mem_of_find?_eq_some hfind
      have hlower := List.find?_some hfind
      have hvalue := h.length head.1 head.2 ((horder.mem_iff _ _).mp hmem) (by simpa using hlower)
      show ofDecimal head.2 = some body.length
      rw [hvalue.2, ofDecimal_toDecimal]

theorem Framed.readRest {m : Bytes → Option Bytes} {body : Bytes} (h : Framed m body)
    {order : List (Bytes × Bytes)} (horder : Enumerates m order) :
    readRest (headText order ++ (text "\r\n" ++ body)) = some ⟨order, body, []⟩ := by
  have hlegal : ∀ v ∈ order, LegalHead v.1 v.2 :=
    fun v hv => h.legal v.1 v.2 ((horder.mem_iff _ _).mp hv)
  rw [Http.readRest, readHeads_headText order hlegal]
  simp [readBody, h.contentLength horder]

/-- A header other than `Content-Length` does not touch the framing. -/
theorem Framed.addHead {m : Bytes → Option Bytes} {body field value : Bytes} (h : Framed m body)
    (hlegal : LegalHead field value) (hlower : lowerCase field ≠ text "content-length") :
    Framed (Function.update m field (some value)) body := by
  have hne : text "Content-Length" ≠ field := by
    rintro rfl
    exact hlower (by decide)
  refine ⟨fun field' value' hentry => ?_, fun field' value' hentry hlower' => ?_, fun hnone => ?_⟩
  · by_cases hfield : field' = field
    · subst hfield
      rw [Function.update_self] at hentry
      exact Option.some.inj hentry ▸ hlegal
    · rw [Function.update_of_ne hfield] at hentry
      exact h.legal field' value' hentry
  · have hfield : field' ≠ field := by
      rintro rfl
      exact hlower hlower'
    rw [Function.update_of_ne hfield] at hentry
    exact h.length field' value' hentry hlower'
  · rw [Function.update_of_ne hne] at hnone
    exact h.absent hnone

/-- The names that have a setter of their own. -/
theorem Framed.addNamed {m : Bytes → Option Bytes} {body field value : Bytes} (h : Framed m body)
    (hfield : field ∈ [text "Host", text "Cookie", text "Content-Type"]) (hvalue : 13 ∉ value) :
    Framed (Function.update m field (some value)) body := by
  have hnames : ∀ field ∈ [text "Host", text "Cookie", text "Content-Type"],
      field ≠ [] ∧ 58 ∉ field ∧ 13 ∉ field ∧ lowerCase field ≠ text "content-length" := by decide
  obtain ⟨hne, hcolon, hcr, hlower⟩ := hnames field hfield
  exact h.addHead ⟨hne, hcolon, hcr, hvalue⟩ hlower

/-- `setBody` keeps `Content-Length` in step. -/
theorem Framed.setBody {m : Bytes → Option Bytes} {body : Bytes} (h : Framed m body)
    (next : Bytes) :
    Framed (Function.update m (text "Content-Length") (some (toDecimal next.length))) next := by
  refine ⟨fun field value hentry => ?_, fun field value hentry hlower => ?_, fun hnone => ?_⟩
  · by_cases hfield : field = text "Content-Length"
    · subst hfield
      rw [Function.update_self] at hentry
      obtain rfl := Option.some.inj hentry
      refine ⟨by decide, by decide, by decide, fun hcr => ?_⟩
      exact absurd (isDigit_of_mem_toDecimal hcr) (by decide)
    · rw [Function.update_of_ne hfield] at hentry
      exact h.legal field value hentry
  · by_cases hfield : field = text "Content-Length"
    · subst hfield
      rw [Function.update_self] at hentry
      exact ⟨rfl, (Option.some.inj hentry).symm⟩
    · rw [Function.update_of_ne hfield] at hentry
      exact absurd (h.length field value hentry hlower).1 hfield
  · rw [Function.update_self] at hnone
    cases hnone

/-! ## Requests -/

namespace HttpRequest

variable {r r' : HttpRequest} {ndebug : Bool} {calls : List RequestSetter}

/-- What stands between the two spaces of the request line. -/
def target (r : HttpRequest) : Bytes :=
  r.mUrl ++ if r.mQuery = [] then [] else text "?" ++ r.mQuery

def requestLine (r : HttpRequest) : Bytes :=
  r.mMethod.string ++ (text " " ++ (r.target ++ (text " " ++ text "HTTP/1.1")))

theorem getResult_eq (r : HttpRequest) (order : List (Bytes × Bytes)) :
    r.getResult order =
      r.requestLine ++ (text "\r\n" ++ (headText order ++ (text "\r\n" ++ r.mBody))) := by
  have hend : text " HTTP/1.1\r\n" = text " " ++ (text "HTTP/1.1" ++ text "\r\n") := by decide
  simp only [getResult, requestLine, target, hend, List.append_assoc]

/-- URL and query have no delimiter in them. -/
structure LegalTarget (r : HttpRequest) : Prop where
  url : 32 ∉ r.mUrl ∧ 63 ∉ r.mUrl ∧ 13 ∉ r.mUrl
  query : 32 ∉ r.mQuery ∧ 13 ∉ r.mQuery

theorem LegalTarget.not_mem_target (h : r.LegalTarget) : 32 ∉ r.target ∧ 13 ∉ r.target := by
  obtain ⟨⟨hspace, -, hcr⟩, hquery⟩ := h
  rw [target, text_question]
  split <;> simp [hspace, hcr, hquery]

theorem LegalTarget.cut_target (h : r.LegalTarget) :
    (cut (text "?") r.target).getD (r.target, []) = (r.mUrl, r.mQuery) := by
  rw [target, text_question]
  split
  · rename_i hempty
    rw [List.append_nil, cut_eq_none h.url.2.1, hempty]
    rfl
  · rw [show [63] ++ r.mQuery = (63 :: []) ++ r.mQuery from rfl, cut_append h.url.2.1]
    rfl

theorem not_mem_method (method : HttpMethod) : 32 ∉ method.string ∧ 13 ∉ method.string := by
  cases method <;> decide

theorem LegalTarget.not_mem_requestLine (h : r.LegalTarget) : 13 ∉ r.requestLine := by
  have hspace : 13 ∉ text " " := by decide
  have hversion : 13 ∉ text "HTTP/1.1" := by decide
  simp only [requestLine, List.mem_append, not_or]
  exact ⟨(not_mem_method _).2, hspace, h.not_mem_target.2, hspace, hversion⟩

theorem isToken_string_iff (method : HttpMethod) : isToken method.string ↔ method ≠ .max := by
  cases method <;> decide

theorem LegalTarget.readRequestLine (h : r.LegalTarget) :
    readRequestLine r.requestLine =
      if r.mMethod = .max then none else some (r.mMethod.string, r.mUrl, r.mQuery) := by
  rw [Http.readRequestLine, requestLine, cut_space (not_mem_method _).1]
  simp only [Option.bind_some]
  rw [cut_space h.not_mem_target.1]
  simp only [Option.bind_some, isToken_string_iff, and_true, h.cut_target, ite_not]

/-- Without a method the request is not one of the grammar. -/
theorem LegalTarget.readRequest_max (h : r.LegalTarget) (hmax : r.mMethod = .max)
    (order : List (Bytes × Bytes)) : readRequest (r.getResult order) = none := by
  rw [getResult_eq, Http.readRequest, cut_crlf h.not_mem_requestLine]
  simp only [Option.bind_some, h.readRequestLine, if_pos hmax, Option.bind_none]

/-- **What is written is read back.**  For any request whose parts have no delimiter in
them, and in any order of its entries. -/
theorem LegalTarget.readRequest (h : r.LegalTarget) (hmethod : r.mMethod ≠ .max)
    (hframed : Framed r.mHeadField r.mBody) {order : List (Bytes × Bytes)}
    (horder : Enumerates r.mHeadField order) :
    readRequest (r.getResult order) = some
      { heads := order, body := r.mBody, leftOver := [], method := r.mMethod.string,
        url := r.mUrl, query := r.mQuery } := by
  rw [getResult_eq, Http.readRequest, cut_crlf h.not_mem_requestLine]
  simp only [Option.bind_some, h.readRequestLine, if_neg hmethod, hframed.readRest horder,
    Option.map_some]

end HttpRequest

/-! ## What was set last -/

section

variable {σ β : Type}

/-- What the calls have set last. -/
def lastSet (part : σ → Option β) (start : β) (calls : List σ) : β :=
  (calls.filterMap part).getLast?.getD start

theorem lastSet_concat (part : σ → Option β) (start : β) (calls : List σ) (call : σ) :
    lastSet part start (calls ++ [call]) = (part call).getD (lastSet part start calls) := by
  unfold lastSet
  cases hpart : part call with
  | none => simp [hpart]
  | some value => simp [hpart]

/-- The value that the calls have set last for each header name. -/
def lastHead (head? : σ → Option (Bytes × Bytes)) (calls : List σ) (field : Bytes) :
    Option Bytes :=
  (calls.filterMap head?).reverse.lookup field

theorem lastHead_concat (head? : σ → Option (Bytes × Bytes)) (calls : List σ) (call : σ) :
    lastHead head? (calls ++ [call]) =
      match head? call with
      | none => lastHead head? calls
      | some head => Function.update (lastHead head? calls) head.1 (some head.2) := by
  funext field
  unfold lastHead
  cases hhead : head? call with
  | none => simp [hhead]
  | some head =>
      simp only [List.filterMap_append, List.filterMap_cons, hhead, List.filterMap_nil,
        List.reverse_append, List.reverse_singleton, List.singleton_append]
      obtain ⟨name, value⟩ := head
      by_cases hfield : field = name
      · subst hfield
        simp
      · have hbeq : (field == name) = false := by simpa using hfield
        simp [List.lookup_cons, hbeq, hfield]

end

/-! ## The setters of a request -/

namespace RequestSetter

def method? : RequestSetter → Option HttpMethod
  | setMethod protocol => some protocol
  | _ => none

def url? : RequestSetter → Option Bytes
  | setUrl url => some url
  | _ => none

def query? : RequestSetter → Option Bytes
  | setQuery query => some query
  | _ => none

def body? : RequestSetter → Option Bytes
  | setBody body => some body
  | _ => none

/-- The header that a call sets. -/
def head? : RequestSetter → Option (Bytes × Bytes)
  | setHost host => some (text "Host", host)
  | setCookie v => some (text "Cookie", v)
  | setContentType v => some (text "Content-Type", v)
  | setBody body => some (text "Content-Length", toDecimal body.length)
  | addHeadValue field value => some (field, value)
  | _ => none

/-- No byte of `banned` is in `s`. -/
def Free (banned s : Bytes) : Prop := ∀ c ∈ banned, c ∉ s

/-- The arguments that a caller may give, with `"\r\n"` for CR and LF. -/
def Legal : RequestSetter → Prop
  | setMethod _ | setBody _ => True
  | setUrl url => Free (text " ?\r\n") url
  | setQuery query => Free (text " \r\n") query
  | setHost v | setCookie v | setContentType v => Free (text "\r\n") v
  | addHeadValue field value =>
      field ≠ [] ∧ Free (text ":\r\n") field ∧ lowerCase field ≠ text "content-length" ∧
        Free (text "\r\n") value

end RequestSetter

namespace HttpRequest

open RequestSetter

variable {r r' : HttpRequest} {ndebug : Bool} {calls : List RequestSetter} {call : RequestSetter}

/-- What a call that does not fail its assertion does. -/
theorem eq_of_apply (h : r.apply ndebug call = some r') :
    r' =
      { mUrl := call.url?.getD r.mUrl
        mQuery := call.query?.getD r.mQuery
        mBody := call.body?.getD r.mBody
        mMethod := call.method?.getD r.mMethod
        mHeadField :=
          match call.head? with
          | none => r.mHeadField
          | some head => Function.update r.mHeadField head.1 (some head.2) } := by
  cases call with
  | setMethod protocol =>
      simp only [HttpRequest.apply, setMethod, Option.ite_none_right_eq_some, Option.some.injEq] at h
      exact h.2.symm
  | setHost host | setUrl url | setCookie v | setContentType v | setQuery query | setBody body
  | addHeadValue field value => exact (Option.some.inj h).symm

/-- The members hold what the calls have set last. -/
structure Holds (calls : List RequestSetter) (r : HttpRequest) : Prop where
  method : r.mMethod = lastSet method? .get calls
  url : r.mUrl = lastSet url? [] calls
  query : r.mQuery = lastSet query? [] calls
  body : r.mBody = lastSet body? [] calls
  heads : r.mHeadField = lastHead head? calls

theorem Holds.apply (h : r.Holds calls) (happly : r.apply ndebug call = some r') :
    r'.Holds (calls ++ [call]) := by
  obtain rfl := eq_of_apply happly
  refine ⟨?_, ?_, ?_, ?_, ?_⟩
  · rw [lastSet_concat, h.method]
  · rw [lastSet_concat, h.url]
  · rw [lastSet_concat, h.query]
  · rw [lastSet_concat, h.body]
  · rw [lastHead_concat, h.heads]

/-- A call with legal arguments keeps the request one that is read back. -/
theorem readable_apply (htarget : r.LegalTarget) (hframed : Framed r.mHeadField r.mBody)
    (hlegal : call.Legal) (happly : r.apply ndebug call = some r') :
    r'.LegalTarget ∧ Framed r'.mHeadField r'.mBody := by
  obtain rfl := eq_of_apply happly
  have hcr : 13 ∈ text "\r\n" := by decide
  cases call with
  | setMethod protocol => exact ⟨⟨htarget.url, htarget.query⟩, hframed⟩
  | setUrl url =>
      have hfree (c : UInt8) (hc : c ∈ text " ?\r\n") : c ∉ url := hlegal c hc
      exact ⟨⟨⟨hfree 32 (by decide), hfree 63 (by decide), hfree 13 (by decide)⟩, htarget.query⟩,
        hframed⟩
  | setQuery query =>
      have hfree (c : UInt8) (hc : c ∈ text " \r\n") : c ∉ query := hlegal c hc
      exact ⟨⟨htarget.url, hfree 32 (by decide), hfree 13 (by decide)⟩, hframed⟩
  | setHost v | setCookie v | setContentType v =>
      refine ⟨⟨htarget.url, htarget.query⟩, hframed.addNamed ?_ (hlegal 13 hcr)⟩
      simp
  | setBody body => exact ⟨⟨htarget.url, htarget.query⟩, hframed.setBody body⟩
  | addHeadValue field value =>
      obtain ⟨hne, hfield, hlower, hvalue⟩ := hlegal
      refine ⟨⟨htarget.url, htarget.query⟩, hframed.addHead ⟨hne, ?_, ?_, ?_⟩ hlower⟩
      · exact hfield 58 (by decide)
      · exact hfield 13 (by decide)
      · exact hvalue 13 hcr

theorem applyAll_concat (calls : List RequestSetter) (call : RequestSetter) :
    applyAll ndebug (calls ++ [call]) =
      (applyAll ndebug calls).bind fun r => r.apply ndebug call := by
  rw [applyAll, List.foldlM_append]
  simp only [List.foldlM_cons, List.foldlM_nil, bind_pure]
  rfl

/-- **Whole sequences of calls.** -/
theorem holds_of_applyAll (hlegal : ∀ call ∈ calls, call.Legal)
    (h : applyAll ndebug calls = some r) :
    r.Holds calls ∧ r.LegalTarget ∧ Framed r.mHeadField r.mBody := by
  induction calls using List.reverseRecOn generalizing r with
  | nil =>
      obtain rfl : new = r := Option.some.inj h
      refine ⟨⟨rfl, rfl, rfl, rfl, rfl⟩, ⟨?_, ?_⟩, ⟨?_, ?_, fun _ => rfl⟩⟩ <;> simp [new]
  | append_singleton calls call ih =>
      rw [applyAll_concat] at h
      obtain ⟨mid, hmid, hlast⟩ := Option.bind_eq_some_iff.mp h
      obtain ⟨hholds, htarget, hframed⟩ :=
        ih (fun call hcall => hlegal call (List.mem_append_left _ hcall)) hmid
      have hcall := hlegal call (List.mem_append_right _ List.mem_cons_self)
      obtain ⟨htarget', hframed'⟩ := readable_apply htarget hframed hcall hlast
      exact ⟨hholds.apply hlast, htarget', hframed'⟩

/-- There is an order of the headers, whatever was set. -/
theorem exists_enumerates (h : applyAll ndebug calls = some r) :
    ∃ order, Enumerates r.mHeadField order := by
  induction calls using List.reverseRecOn generalizing r with
  | nil =>
      obtain rfl : new = r := Option.some.inj h
      exact ⟨[], List.nodup_nil, fun _ _ => by simp [new]⟩
  | append_singleton calls call ih =>
      rw [applyAll_concat] at h
      obtain ⟨mid, hmid, hlast⟩ := Option.bind_eq_some_iff.mp h
      obtain ⟨order, horder⟩ := ih hmid
      obtain rfl := eq_of_apply hlast
      cases hhead : call.head? with
      | none => exact ⟨order, horder⟩
      | some head => exact ⟨_, horder.update head.1 head.2⟩

/-- The assertion in `setMethod` holds in all of the calls. -/
def Asserted (ndebug : Bool) (calls : List RequestSetter) : Prop :=
  ndebug = true ∨ ∀ protocol, RequestSetter.setMethod protocol ∈ calls →
    protocol ≠ .head ∧ protocol ≠ .max

theorem isSome_apply_iff (r : HttpRequest) :
    (r.apply ndebug call).isSome ↔ Asserted ndebug [call] := by
  cases call with
  | setMethod protocol => simp [HttpRequest.apply, setMethod, Asserted]
  | _ => simp [HttpRequest.apply, Asserted]

/-- **The calls return exactly if their assertions hold.** -/
theorem isSome_applyAll_iff : (applyAll ndebug calls).isSome ↔ Asserted ndebug calls := by
  induction calls using List.reverseRecOn with
  | nil => simp [applyAll, Asserted]
  | append_singleton calls call ih =>
      have hboth : Asserted ndebug (calls ++ [call]) ↔
          Asserted ndebug calls ∧ Asserted ndebug [call] := by
        simp only [Asserted, List.mem_append, or_imp, forall_and, ← or_and_left]
        rw [and_and_and_comm]
      rw [applyAll_concat, hboth, ← ih]
      cases applyAll ndebug calls with
      | none => simp
      | some r => simpa using isSome_apply_iff r

/-- What the calls have set last is what was read, with nothing left over. -/
structure ReadAs (calls : List RequestSetter) (read : ReadRequest) : Prop where
  method : read.method = (lastSet method? .get calls).string
  url : read.url = lastSet url? [] calls
  query : read.query = lastSet query? [] calls
  body : read.body = lastSet body? [] calls
  leftOver : read.leftOver = []
  nodup : (read.heads.map Prod.fst).Nodup
  heads : ∀ field, read.heads.lookup field = lastHead head? calls field

/-- **A request is read back.**  Whatever the setters were called with last is what the
reader finds, in any order of the headers and with nothing left over. -/
theorem getResult_read_back (hlegal : ∀ call ∈ calls, call.Legal)
    (h : applyAll ndebug calls = some r) (hmethod : lastSet method? .get calls ≠ .max)
    {order : List (Bytes × Bytes)} (horder : Enumerates r.mHeadField order) :
    ∃ read, readRequest (r.getResult order) = some read ∧ ReadAs calls read := by
  obtain ⟨hholds, htarget, hframed⟩ := holds_of_applyAll hlegal h
  refine ⟨_, htarget.readRequest (hholds.method ▸ hmethod) hframed horder, ?_⟩
  refine ⟨congrArg HttpMethod.string hholds.method, hholds.url, hholds.query, hholds.body, rfl,
    horder.nodup, fun field => ?_⟩
  rw [← hholds.heads]
  exact horder.lookup field

/-- No assertion fails in the calls, and in every order of the headers their last values are
read back. -/
def ReadsBack (ndebug : Bool) (calls : List RequestSetter) : Prop :=
  ∃ r, applyAll ndebug calls = some r ∧ ∀ order, Enumerates r.mHeadField order →
    ∃ read, readRequest (r.getResult order) = some read ∧ ReadAs calls read

/-- **When a request is read back.**  With legal arguments, exactly if the build has no
assertions or no call sets `HTTP_METHOD_HEAD` or `HTTP_METHOD_MAX`, and the method that was
set last is not `HTTP_METHOD_MAX`. -/
theorem readsBack_iff (ndebug : Bool) (calls : List RequestSetter)
    (hlegal : ∀ call ∈ calls, call.Legal) :
    ReadsBack ndebug calls ↔
      Asserted ndebug calls ∧ lastSet method? .get calls ≠ .max := by
  constructor
  · rintro ⟨r, hr, hread⟩
    refine ⟨isSome_applyAll_iff.mp (Option.isSome_iff_exists.mpr ⟨r, hr⟩), fun hmax => ?_⟩
    obtain ⟨order, horder⟩ := exists_enumerates hr
    obtain ⟨read, hsome, -⟩ := hread order horder
    obtain ⟨hholds, htarget, -⟩ := holds_of_applyAll hlegal hr
    rw [htarget.readRequest_max (hholds.method.trans hmax)] at hsome
    cases hsome
  · rintro ⟨hasserted, hmethod⟩
    obtain ⟨r, hr⟩ := Option.isSome_iff_exists.mp (isSome_applyAll_iff.mpr hasserted)
    exact ⟨r, hr, fun order horder => getResult_read_back hlegal hr hmethod horder⟩

/-- A query with a `?`, and a body of two bytes. -/
theorem readsBack_post :
    ReadsBack false [.setMethod .post, .setUrl (text "/a"), .setQuery (text "k?"),
      .setBody (text "xy")] := by
  refine (readsBack_iff false _ ?_).mpr ⟨.inr (by simp), by decide⟩
  simp only [List.mem_cons, List.not_mem_nil, or_false]
  rintro call (rfl | rfl | rfl | rfl)
  · trivial
  · exact fun c hc => (by decide +kernel : ∀ c ∈ text " ?\r\n", c ∉ text "/a") c hc
  · exact fun c hc => (by decide +kernel : ∀ c ∈ text " \r\n", c ∉ text "k?") c hc
  · trivial

/-- With assertions `setMethod` does not accept `HTTP_METHOD_HEAD`; without them the request
is read back. -/
theorem not_readsBack_head :
    (∀ call ∈ [RequestSetter.setMethod .head], call.Legal) ∧
      ¬ReadsBack false [.setMethod .head] ∧ ReadsBack true [.setMethod .head] := by
  have hlegal : ∀ call ∈ [RequestSetter.setMethod .head], call.Legal := by simp [Legal]
  refine ⟨hlegal, ?_, ?_⟩
  · rintro ⟨r, hr, -⟩
    cases hr
  · have hr : applyAll true [.setMethod .head] = some { new with mMethod := .head } := rfl
    exact ⟨_, hr, fun order horder => getResult_read_back hlegal hr (by decide) horder⟩

end HttpRequest

/-! ## Responses -/

namespace ResponseSetter

def status? : ResponseSetter → Option HttpResponseStatus
  | setStatus status => some status
  | _ => none

def body? : ResponseSetter → Option Bytes
  | setBody body => some body
  | _ => none

/-- The header that a call sets. -/
def head? : ResponseSetter → Option (Bytes × Bytes)
  | setContentType v => some (text "Content-Type", v)
  | setBody body => some (text "Content-Length", toDecimal body.length)
  | addHeadValue field value => some (field, value)
  | _ => none

end ResponseSetter

namespace HttpResponse

open ResponseSetter

/-- The response is read back: its status, the reason of `OK`, its headers and its body,
with nothing left over. -/
def ReadsBack (calls : List ResponseSetter) (order : List (Bytes × Bytes)) : Prop :=
  ∃ read, readResponse ((applyAll calls).getResult order) = some read ∧
    (read.code : ℤ) = (lastSet status? .ok calls).toInt ∧
    (lastSet status? .ok calls = .ok → read.reason = text "OK") ∧
    read.body = lastSet body? [] calls ∧
    read.leftOver = [] ∧
    ∀ field, read.heads.lookup field = lastHead head? calls field

theorem mStatus_applyAll (calls : List ResponseSetter) :
    (applyAll calls).mStatus = lastSet status? .ok calls := by
  induction calls using List.reverseRecOn with
  | nil => rfl
  | append_singleton calls call ih =>
      rw [applyAll, List.foldl_append, lastSet_concat, ← ih]
      cases call <;> rfl

def statusLine (r : HttpResponse) : Bytes :=
  text "HTTP/1.1" ++ (text " " ++ (intText r.mStatus ++ reasonText r.mStatus))

theorem getResult_eq (r : HttpResponse) (order : List (Bytes × Bytes)) :
    r.getResult order =
      r.statusLine ++ (text "\r\n" ++ (headText order ++ (text "\r\n" ++ r.mBody))) := by
  have hstart : text "HTTP/1.1 " = text "HTTP/1.1" ++ text " " := by decide
  simp only [getResult, statusLine, hstart, List.append_assoc]

/-- A number has neither spaces nor line ends. -/
theorem not_mem_intText (i : Int32) {c : UInt8} (hc : c = 32 ∨ c = 13) : c ∉ intText i := by
  have hdigits (n : ℕ) : c ∉ toDecimal n := by
    intro hmem
    have hdigit := isDigit_of_mem_toDecimal hmem
    rcases hc with rfl | rfl
    · exact absurd hdigit (by decide)
    · exact absurd hdigit (by decide)
  have hminus : c ∉ text "-" := by
    rcases hc with rfl | rfl <;> decide
  rw [intText]
  split
  · simp only [List.mem_append, not_or]
    exact ⟨hminus, hdigits _⟩
  · exact hdigits _

/-- The status line has the wrong reason if the status is `OK`, and no space behind the
code if it is not. -/
theorem readStatusLine_statusLine (r : HttpResponse) :
    readStatusLine r.statusLine =
      if r.mStatus = .ok then some (200, text "OKUNKNOWN") else none := by
  rw [readStatusLine, statusLine, cut_space (by decide)]
  simp only [Option.bind_some, if_true]
  split
  · rename_i hok
    rw [hok]
    decide
  · rename_i hother
    have hspace : 32 ∉ intText r.mStatus ++ reasonText r.mStatus := by
      rw [reasonText, if_neg hother, List.mem_append, not_or]
      exact ⟨not_mem_intText _ (.inl rfl), by decide⟩
    rw [text_space, cut_eq_none hspace]
    rfl

theorem not_mem_statusLine (r : HttpResponse) : 13 ∉ r.statusLine := by
  have hreason : 13 ∉ reasonText r.mStatus := by
    rw [reasonText]
    split <;> decide
  simp only [statusLine, List.mem_append, not_or]
  exact ⟨by decide, by decide, not_mem_intText _ (.inr rfl), hreason⟩

theorem reason_of_readResponse {r : HttpResponse} {order : List (Bytes × Bytes)}
    {read : ReadResponse} (h : readResponse (r.getResult order) = some read) :
    r.mStatus = .ok ∧ read.reason = text "OKUNKNOWN" := by
  rw [getResult_eq, readResponse, cut_crlf (not_mem_statusLine _)] at h
  simp only [Option.bind_some] at h
  rw [readStatusLine_statusLine] at h
  by_cases hok : r.mStatus = .ok
  · rw [if_pos hok] at h
    obtain ⟨rest, -, rfl⟩ := Option.map_eq_some_iff.mp h
    exact ⟨hok, rfl⟩
  · rw [if_neg hok] at h
    cases h

/-- **A response is never read back.**  It is read only if its status is `OK`, and then
with another reason. -/
theorem getResult_not_read_back (calls : List ResponseSetter) (order : List (Bytes × Bytes)) :
    ¬ReadsBack calls order := by
  rintro ⟨read, hread, -, hreason, -⟩
  obtain ⟨hok, hunknown⟩ := reason_of_readResponse hread
  rw [mStatus_applyAll] at hok
  rw [hreason hok] at hunknown
  exact absurd hunknown (by decide)

/-- A response whose status is `OK`, without headers or body. -/
theorem ok_not_read_back :
    Enumerates (applyAll [.setStatus .ok]).mHeadField [] ∧ ¬ReadsBack [.setStatus .ok] [] := by
  refine ⟨⟨List.nodup_nil, fun field value => ?_⟩, ?_⟩
  · simp [applyAll, HttpResponse.apply, setStatus, new]
  · rintro ⟨read, hread, -, hreason, -⟩
    have hunknown := (reason_of_readResponse hread).2
    rw [hreason rfl] at hunknown
    exact absurd hunknown (by decide)

end HttpResponse

end Brynet.Http
