import Brynet.Http.HttpRead
import Brynet.Utils.Base64
import Brynet.Utils.Sha1Stream

/-!
# The handshake of a WebSocket

`WebSocketFormat::wsHandshake`, which answers the request of a client.  The response is one
of HTTP/1.1, and its header `Sec-WebSocket-Accept` decodes to the hash that the protocol
asks for.
-/

namespace Brynet.Http

open Text

/-- What `wsHandshake` appends to the key. -/
def guid : Bytes := text "258EAFA5-E914-47DA-95CA-C5AB0DC85B11"

/-- `wsHandshake`.  The `CSHA1` is a local variable, whose buffer and digest hold any bytes
before they are written; `none` is an access outside of a block. -/
def wsHandshake (mBuffer mDigest secKey : Bytes) : Option Bytes := do
  let secKey := secKey ++ guid
  let s1 := CSHA1.new mBuffer mDigest
  let s1 ← s1.update secKey (UInt32.ofNat secKey.length)
  let s1 ← s1.final
  let puDest := s1.getHash.take 20
  let base64Str := base64Encode puDest
  let response := text "HTTP/1.1 101 Switching Protocols\r\n" ++
    text "Upgrade: websocket\r\n" ++
    text "Connection: Upgrade\r\n" ++
    text "Sec-WebSocket-Accept: "
  pure (response ++ base64Str ++ text "\r\n\r\n")

/-- The value of `Sec-WebSocket-Accept`. -/
def acceptKey (secKey : Bytes) : Bytes := base64Encode (Sha1.sha1 (secKey ++ guid))

/-- The header lines of the response. -/
def handshakeHeads (secKey : Bytes) : List (Bytes × Bytes) :=
  [(text "Upgrade", text "websocket"), (text "Connection", text "Upgrade"),
    (text "Sec-WebSocket-Accept", acceptKey secKey)]

def handshakeLine : Bytes := text "HTTP/1.1 101 Switching Protocols"

variable {mBuffer mDigest secKey : Bytes}

theorem wsHandshake_eq (hbuffer : mBuffer.length = 64) (hkey : secKey.length + 100 ≤ 2 ^ 32) :
    wsHandshake mBuffer mDigest secKey =
      some (handshakeLine ++ (text "\r\n" ++ (headText (handshakeHeads secKey) ++
        (text "\r\n" ++ [])))) := by
  have hnew : CSHA1.Holds Sha1.init (CSHA1.new mBuffer mDigest) [] :=
    CSHA1.Holds.empty rfl rfl rfl hbuffer
  have hguid : guid.length = 36 := by decide
  have hlength : (secKey ++ guid).length = secKey.length + 36 := by
    rw [List.length_append, hguid]
  have hlen : (UInt32.ofNat (secKey ++ guid).length).toNat = (secKey ++ guid).length := by
    rw [UInt32.toNat_ofNat']
    omega
  obtain ⟨s1, hupdate, hold, -⟩ := hnew.update (secKey ++ guid) _ hlen.le (by omega)
  rw [hlen, List.take_length, List.nil_append] at hold
  obtain ⟨s2, hfinal, hdigest, -⟩ := hold.final
  have hhash : s2.getHash.take 20 = Sha1.sha1 (secKey ++ guid) := by
    rw [CSHA1.getHash, hdigest, List.take_of_length_le (Sha1.length_digest _).le, Sha1.sha1]
  have hlines : text "HTTP/1.1 101 Switching Protocols\r\n" ++ text "Upgrade: websocket\r\n" ++
      text "Connection: Upgrade\r\n" ++ text "Sec-WebSocket-Accept: " =
      handshakeLine ++ (text "\r\n" ++ (text "Upgrade" ++ text ": " ++ text "websocket" ++
        text "\r\n" ++ (text "Connection" ++ text ": " ++ text "Upgrade" ++ text "\r\n" ++
        (text "Sec-WebSocket-Accept" ++ text ": ")))) := by decide +kernel
  have hend : text "\r\n\r\n" = text "\r\n" ++ text "\r\n" := by decide
  unfold wsHandshake
  simp only [Option.bind_eq_bind, hupdate, Option.bind_some, hfinal, hhash, hlines, hend]
  simp only [handshakeHeads, headText, acceptKey, List.flatMap_cons, List.flatMap_nil,
    List.append_assoc, List.append_nil, Option.pure_def]

theorem not_mem_acceptKey (secKey : Bytes) : 13 ∉ acceptKey secKey := by
  intro hcr
  rcases isBase64_of_mem_base64Encode hcr with hbase | hpad
  · exact absurd hbase (by decide)
  · exact absurd hpad (by decide)

/-- **The handshake is read back.**  By the grammar of HTTP/1.1 the response has the three
headers of the protocol and no body, and the last of them decodes to the hash of the key and
the fixed string. -/
theorem wsHandshake_read_back (hbuffer : mBuffer.length = 64)
    (hkey : secKey.length + 100 ≤ 2 ^ 32) :
    ∃ response, wsHandshake mBuffer mDigest secKey = some response ∧
      readResponse response = some {
        code := 101
        reason := text "Switching Protocols"
        heads := handshakeHeads secKey
        body := []
        leftOver := [] } ∧
      base64Decode (acceptKey secKey) = Sha1.sha1 (secKey ++ guid) := by
  refine ⟨_, wsHandshake_eq hbuffer hkey, ?_, ?_⟩
  · have hline : readStatusLine handshakeLine = some (101, text "Switching Protocols") := by
      decide
    have hlegal : ∀ v ∈ handshakeHeads secKey, LegalHead v.1 v.2 := by
      simp only [handshakeHeads, List.forall_mem_cons]
      refine ⟨?_, ?_, ?_, fun v hv => absurd hv List.not_mem_nil⟩
      · exact ⟨by decide, by decide, by decide, by decide⟩
      · exact ⟨by decide, by decide, by decide, by decide⟩
      · exact ⟨by decide, by decide, by decide, not_mem_acceptKey secKey⟩
    have hbody : contentLength (handshakeHeads secKey) = some 0 := by
      have hnames : ∀ name ∈ [text "Upgrade", text "Connection", text "Sec-WebSocket-Accept"],
          ¬(decide (lowerCase name = text "content-length") = true) := by decide
      rw [contentLength, List.find?_eq_none.mpr]
      intro v hv
      apply hnames
      simp only [handshakeHeads, List.mem_cons, List.not_mem_nil, or_false] at hv ⊢
      rcases hv with rfl | rfl | rfl <;> simp
    rw [readResponse, cut_crlf (by decide)]
    simp only [Option.bind_some, hline, readRest, readHeads_headText _ hlegal, readBody, hbody]
    rfl
  · have hlength : (Sha1.sha1 (secKey ++ guid)).length = 20 := Sha1.length_digest _
    exact decode_encode (by rw [hlength]; decide)

/-- The key of a client, as the protocol's own example has it. -/
theorem wsHandshake_read_back_sample :
    ∃ response, wsHandshake (List.replicate 64 0) [] (text "dGhlIHNhbXBsZSBub25jZQ==") =
        some response ∧
      readResponse response = some {
        code := 101
        reason := text "Switching Protocols"
        heads := handshakeHeads (text "dGhlIHNhbXBsZSBub25jZQ==")
        body := []
        leftOver := [] } ∧
      base64Decode (acceptKey (text "dGhlIHNhbXBsZSBub25jZQ==")) =
        Sha1.sha1 (text "dGhlIHNhbXBsZSBub25jZQ==" ++ guid) :=
  wsHandshake_read_back List.length_replicate (by decide)

end Brynet.Http
