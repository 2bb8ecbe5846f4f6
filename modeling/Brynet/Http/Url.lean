import Brynet.Lib.Memory
import Mathlib.Logic.Function.Basic
import Mathlib.Data.Nat.Basic

/-!
# `http_parser_parse_url`

The URL parser of the bundled `http_parser.c`, in strict mode: the automaton
`parse_url_char`, the automaton of the authority part `http_parse_host_char`,
and the two loops over them that note where each component starts and how long
it is.

Offsets and lengths are `uint16_t` in the source.  They are natural numbers
here and every assignment takes the remainder, because `HTTPParser` hands over
URLs of any length.
-/

namespace Brynet.Http

open Memory

/-- A `std::string`, or the bytes of a buffer. -/
abbrev Bytes := List UInt8

/-! ## Character classes -/

/-- The table `normal_url_char`: one bit for each character. -/
def normalUrlChar : List UInt8 :=
  [0, 0, 0, 0, 0xf6, 0xff, 0xff, 0x7f, 0xff, 0xff, 0xff, 0xff, 0xff, 0xff, 0xff, 0x7f,
    0, 0, 0, 0, 0, 0, 0, 0, 0, 0, 0, 0, 0, 0, 0, 0]

/-- `IS_URL_CHAR`. -/
def isUrlChar (c : UInt8) : Bool :=
  (normalUrlChar.getD (c.toNat / 8) 0) &&& (1 <<< (c &&& 7)) != 0

/-- `LOWER`. -/
def lower (c : UInt8) : UInt8 := c ||| 0x20

/-- `IS_ALPHA`. -/
def isAlpha (c : UInt8) : Bool := 'a'.toUInt8 ≤ lower c && lower c ≤ 'z'.toUInt8

/-- `IS_NUM`. -/
def isNum (c : UInt8) : Bool := '0'.toUInt8 ≤ c && c ≤ '9'.toUInt8

/-- `IS_ALPHANUM`. -/
def isAlphanum (c : UInt8) : Bool := isAlpha c || isNum c

/-- `IS_HEX`. -/
def isHex (c : UInt8) : Bool := isNum c || ('a'.toUInt8 ≤ lower c && lower c ≤ 'f'.toUInt8)

/-- Whether `c` is one of the characters of `chars`. -/
def isOneOf (chars : List Char) (c : UInt8) : Bool := chars.any fun x => x.toUInt8 == c

theorem isOneOf_iff {chars : List Char} {c : UInt8} :
    isOneOf chars c ↔ ∃ x ∈ chars, x.toUInt8 = c := by
  simp [isOneOf]

/-- `IS_MARK`. -/
def isMark (c : UInt8) : Bool := isOneOf ['-', '_', '.', '!', '~', '*', '\'', '(', ')'] c

/-- `IS_USERINFO_CHAR`. -/
def isUserinfoChar (c : UInt8) : Bool :=
  isAlphanum c || isMark c || isOneOf ['%', ';', ':', '&', '=', '+', '$', ','] c

/-- `IS_HOST_CHAR`. -/
def isHostChar (c : UInt8) : Bool := isAlphanum c || isOneOf ['.', '-'] c

/-! ## The automaton of a URL -/

/-- The states of `parse_url_char`. -/
inductive UrlState
  | dead
  | spacesBeforeUrl
  | schema
  | schemaSlash
  | schemaSlashSlash
  | serverStart
  | server
  | serverWithAt
  | path
  | queryStringStart
  | queryString
  | fragmentStart
  | fragment
deriving Repr, DecidableEq

/-- The three server states of `parse_url_char` after the check for a second
`@`. -/
def parseServerChar (ch : UInt8) : UrlState :=
  if isOneOf ['/'] ch then .path
  else if isOneOf ['?'] ch then .queryStringStart
  else if isOneOf ['@'] ch then .serverWithAt
  else if isUserinfoChar ch || isOneOf ['[', ']'] ch then .server
  else .dead

/-- `parse_url_char`. -/
def parseUrlChar (s : UrlState) (ch : UInt8) : UrlState :=
  if isOneOf [' ', '\r', '\n', '\t', '\x0c'] ch then .dead
  else match s with
  | .spacesBeforeUrl =>
      if isOneOf ['/', '*'] ch then .path else if isAlpha ch then .schema else .dead
  | .schema =>
      if isAlpha ch then .schema else if isOneOf [':'] ch then .schemaSlash else .dead
  | .schemaSlash => if isOneOf ['/'] ch then .schemaSlashSlash else .dead
  | .schemaSlashSlash => if isOneOf ['/'] ch then .serverStart else .dead
  | .serverWithAt => if isOneOf ['@'] ch then .dead else parseServerChar ch
  | .serverStart | .server => parseServerChar ch
  | .path =>
      if isUrlChar ch then .path
      else if isOneOf ['?'] ch then .queryStringStart
      else if isOneOf ['#'] ch then .fragmentStart
      else .dead
  | .queryStringStart | .queryString =>
      -- an extra '?' is allowed in a query string
      if isUrlChar ch || isOneOf ['?'] ch then .queryString
      else if isOneOf ['#'] ch then .fragmentStart
      else .dead
  | .fragmentStart =>
      if isUrlChar ch || isOneOf ['?'] ch then .fragment
      else if isOneOf ['#'] ch then .fragmentStart
      else .dead
  | .fragment => if isUrlChar ch || isOneOf ['?', '#'] ch then .fragment else .dead
  | .dead => .dead

/-- `enum http_parser_url_fields`. -/
inductive UrlField
  | schema
  | host
  | port
  | path
  | query
  | fragment
  | userinfo
deriving Repr, DecidableEq

/-- One entry of `field_data`. -/
structure FieldData where
  off : ℕ
  len : ℕ
deriving Repr, DecidableEq

/-- Conversion to `uint16_t`. -/
def toUInt16 (n : ℕ) : ℕ := n % 65536

/-- `len++`. -/
def FieldData.grow (data : FieldData) : FieldData := { data with len := toUInt16 (data.len + 1) }

/-- `field_set` and `field_data` together: a field that is not set has no data. -/
abbrev UrlFields := UrlField → Option FieldData

/-- `field_data[field].len++`. -/
def UrlFields.grow (fields : UrlFields) (field : UrlField) : UrlFields :=
  Function.update fields field ((fields field).map FieldData.grow)

/-- A field starts at `p` with its first character. -/
def UrlFields.start (fields : UrlFields) (field : UrlField) (p : ℕ) : UrlFields :=
  Function.update fields field (some ⟨toUInt16 p, 1⟩)

/-- The locals of the loop of `http_parser_parse_url`; `p` is `p - buf`. -/
structure UrlScan where
  s : UrlState
  p : ℕ
  oldUf : Option UrlField
  foundAt : Bool
  fields : UrlFields

/-- The field that the character read in the new state `s` belongs to; the
delimiters belong to none. -/
def UrlState.field : UrlState → Option UrlField
  | .schema => some .schema
  | .server | .serverWithAt => some .host
  | .path => some .path
  | .queryString => some .query
  | .fragment => some .fragment
  | _ => none

/-- One turn of the loop.  `parse_url_char` never returns to
`s_req_spaces_before_url`, so the branch of the failing assertion is not here. -/
def UrlScan.next (scan : UrlScan) (ch : UInt8) : Option UrlScan :=
  let s := parseUrlChar scan.s ch
  if s = .dead then none
  else
    let scan := { scan with s := s, p := scan.p + 1, foundAt := scan.foundAt || s == .serverWithAt }
    match s.field with
    | none => some scan
    | some uf =>
        if scan.oldUf = some uf then some { scan with fields := scan.fields.grow uf }
        else some { scan with fields := scan.fields.start uf (scan.p - 1), oldUf := some uf }

def UrlScan.init (isConnect : Bool) : UrlScan :=
  { s := if isConnect then .serverStart else .spacesBeforeUrl
    p := 0
    oldUf := none
    foundAt := false
    fields := fun _ => none }

/-- The loop of `http_parser_parse_url`. -/
def UrlScan.run (scan : UrlScan) : Bytes → Option UrlScan
  | [] => some scan
  | ch :: rest => (scan.next ch).bind fun scan => scan.run rest

/-! ## The authority part -/

/-- `enum http_host_state`. -/
inductive HostState
  | dead
  | userinfoStart
  | userinfo
  | hostStart
  | v6Start
  | host
  | v6
  | v6End
  | v6ZoneStart
  | v6Zone
  | portStart
  | port
deriving Repr, DecidableEq

/-- `http_parse_host_char`. -/
def httpParseHostChar (s : HostState) (ch : UInt8) : HostState :=
  match s with
  | .userinfo | .userinfoStart =>
      if isOneOf ['@'] ch then .hostStart else if isUserinfoChar ch then .userinfo else .dead
  | .hostStart => if isOneOf ['['] ch then .v6Start else if isHostChar ch then .host else .dead
  | .host => if isHostChar ch then .host else if isOneOf [':'] ch then .portStart else .dead
  | .v6End => if isOneOf [':'] ch then .portStart else .dead
  | .v6 =>
      if isOneOf [']'] ch then .v6End
      else if isHex ch || isOneOf [':', '.'] ch then .v6
      else if isOneOf ['%'] ch then .v6ZoneStart
      else .dead
  | .v6Start => if isHex ch || isOneOf [':', '.'] ch then .v6 else .dead
  | .v6Zone =>
      if isOneOf [']'] ch then .v6End
      else if isAlphanum ch || isOneOf ['%', '.', '-', '_', '~'] ch then .v6Zone
      else .dead
  | .v6ZoneStart =>
      if isAlphanum ch || isOneOf ['%', '.', '-', '_', '~'] ch then .v6Zone else .dead
  | .port | .portStart => if isNum ch then .port else .dead
  | .dead => .dead

/-- `field_data[field].off = p - buf`, with the length left as it is. -/
def UrlFields.moveTo (fields : UrlFields) (field : UrlField) (p : ℕ) : UrlFields :=
  Function.update fields field ((fields field).map fun data => { data with off := toUInt16 p })

/-- The switch of `http_parse_host` on the new state. -/
def hostFields (fields : UrlFields) (s new : HostState) (p : ℕ) : UrlFields :=
  match new with
  | .host => (if s = .host then fields else fields.moveTo .host p).grow .host
  | .v6 => (if s = .v6 then fields else fields.moveTo .host p).grow .host
  | .v6ZoneStart | .v6Zone => fields.grow .host
  | .port => if s = .port then fields.grow .port else fields.start .port p
  | .userinfo => if s = .userinfo then fields.grow .userinfo else fields.start .userinfo p
  | _ => fields

/-- The loop of `http_parse_host` over the bytes of the host field. -/
def parseHostLoop (s : HostState) (p : ℕ) (fields : UrlFields) :
    Bytes → Option (HostState × UrlFields)
  | [] => some (s, fields)
  | ch :: rest =>
      let new := httpParseHostChar s ch
      if new = .dead then none else parseHostLoop new (p + 1) (hostFields fields s new p) rest

/-- The states in which `http_parse_host` may end. -/
def HostState.final : HostState → Bool
  | .host | .v6End | .port => true
  | _ => false

/-- `http_parse_host`, for a URL whose host field is `host`. -/
def httpParseHost (buf : Bytes) (fields : UrlFields) (host : FieldData) (foundAt : Bool) :
    Option UrlFields :=
  (parseHostLoop (if foundAt then .userinfoStart else .hostStart) host.off
    (Function.update fields .host (some { host with len := 0 }))
    (slice buf host.off host.len)).bind fun result =>
      if result.1.final then some result.2 else none

/-! ## The whole parser -/

/-- `isspace`. -/
def isSpace (c : UInt8) : Bool := isOneOf [' ', '\t', '\n', '\x0b', '\x0c', '\r'] c

/-- The value of a string of decimal digits. -/
def decimal (digits : Bytes) : ℕ := digits.foldl (fun v c => 10 * v + (c.toNat - '0'.toNat)) 0

/-- The optional sign of a number: whether it is a minus, and what follows it. -/
def numberSign : Bytes → Bool × Bytes
  | [] => (false, [])
  | c :: rest =>
      if isOneOf ['-'] c then (true, rest)
      else if isOneOf ['+'] c then (false, rest)
      else (false, c :: rest)

/-- `strtoul(_, NULL, 10)`, for a string that ends at its terminator. -/
def strtoul (str : Bytes) : ℕ :=
  let signed := numberSign (str.dropWhile isSpace)
  let v := decimal (signed.2.takeWhile isNum)
  if 2 ^ 64 ≤ v then 2 ^ 64 - 1 else if signed.1 then (2 ^ 64 - v) % 2 ^ 64 else v

/-- `struct http_parser_url`. -/
structure HttpParserUrl where
  fields : UrlFields
  port : ℕ

/-- `field_set == ((1 << UF_HOST) | (1 << UF_PORT))`. -/
def UrlFields.onlyHostAndPort (fields : UrlFields) : Bool :=
  (fields .host).isSome && (fields .port).isSome &&
    [UrlField.schema, .path, .query, .fragment, .userinfo].all fun uf => (fields uf).isNone

/-- The port of a URL whose fields are `fields`, if it has a legal one. -/
def finishPort (buf : Bytes) (fields : UrlFields) : Option HttpParserUrl :=
  match fields .port with
  | some port =>
      let v := strtoul (buf.drop port.off)
      if 0xffff < v then none else some { fields := fields, port := v }
  | none => some { fields := fields, port := 0 }

/-- What `http_parser_parse_url` does after its first loop. -/
def finishUrl (buf : Bytes) (isConnect : Bool) (scan : UrlScan) : Option HttpParserUrl :=
  -- host must be present if there is a schema
  if (scan.fields .schema).isSome && (scan.fields .host).isNone then none
  else
    let parsed := match scan.fields .host with
      | some host => httpParseHost buf scan.fields host scan.foundAt
      | none => some scan.fields
    parsed.bind fun fields =>
      -- CONNECT requests can only contain "hostname:port"
      if isConnect && !fields.onlyHostAndPort then none else finishPort buf fields

/-- `http_parser_parse_url`; a result other than 0 is `none`. -/
def httpParserParseUrl (buf : Bytes) (isConnect : Bool) : Option HttpParserUrl :=
  ((UrlScan.init isConnect).run buf).bind (finishUrl buf isConnect)

end Brynet.Http
