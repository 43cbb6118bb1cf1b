import Mathlib.Data.Nat.Digits.Defs
import SummerRpc.Helper.AtomicInteger
import SummerRpc.Transport.Head
import SummerRpc.Transport.Responses

/-! # Packets as requests

What `HTTPTransport.read` makes of the packets of
`SimpleBlockingHTTPTransport.generate_packet`.

* `isHead_packet`: a packet starts with a head within the default limits;
* `read_packet`: a packet is read back, and what follows it stays in the stream;
* `requests_read`: packet after packet.
-/

namespace SummerRpc

namespace SimpleBlockingHTTPTransport

/-- `generate_packet` -/
def generatePacket (transactionId : ℕ) (buff : List UInt8) : List UInt8 :=
  bytes "GET / HTTP/1.1\r\n" ++
    (bytes "Transaction-Id: " ++ decimal transactionId ++ crlf) ++
    (bytes "Content-Length: " ++ decimal buff.length ++ crlf) ++
    (bytes "User-Agent: " ++ bytes "SimpleBlockingHTTPTransport" ++ crlf) ++
    crlf ++
    buff

/-- What a client can send: an id of its counter, and a string that is not empty. No
string is longer than `sys.maxint`. -/
structure Packet where
  transactionId : ℕ
  buff : List UInt8
  transactionId_lt : transactionId < 2 ^ 63
  buff_ne_nil : buff ≠ []
  length_le : buff.length ≤ sysMaxint

end SimpleBlockingHTTPTransport

namespace HTTPTransport

open HTTPResponseParser (field notMem_field field_ne_blank)

variable {limits : Limits}

/-! ## The head of a packet -/

/-- The line of a field is a header line. -/
theorem isHeaderLine_field {name value : List UInt8} (hname : ∀ b ∈ name, isSpace b = false)
    (hvalue : ∀ b ∈ value, isSpace b = false)
    (hlength : (field name value).length + 2 ≤ limits.maxHeaderLength) :
    IsHeaderLine limits (field name value ++ crlf) := by
  refine ⟨isLine_concat ?_, field_ne_blank name value, ?_⟩
  · exact notMem_field (fun hmem => absurd (hname 13 hmem) (by decide)) hvalue
  · rw [List.length_append]
    exact hlength

/-- The header lines of a packet. -/
def packetLines (transactionId : ℕ) (buff : List UInt8) : List (List UInt8) :=
  [field (bytes "Transaction-Id") (decimal transactionId) ++ crlf,
    field (bytes "Content-Length") (decimal buff.length) ++ crlf,
    field (bytes "User-Agent") (bytes "SimpleBlockingHTTPTransport") ++ crlf]

/-- A packet is a request line, three fields, a blank line and the body. -/
theorem generatePacket_lines (transactionId : ℕ) (buff rest : List UInt8) :
    SimpleBlockingHTTPTransport.generatePacket transactionId buff ++ rest =
      bytes "GET / HTTP/1.1\r\n" ++
        ((packetLines transactionId buff).flatten ++ (crlf ++ (buff ++ rest))) := by
  have hid : bytes "Transaction-Id: " = bytes "Transaction-Id" ++ [58, 32] := by decide
  have hlen : bytes "Content-Length: " = bytes "Content-Length" ++ [58, 32] := by decide
  have hagent : bytes "User-Agent: " = bytes "User-Agent" ++ [58, 32] := by decide
  rw [SimpleBlockingHTTPTransport.generatePacket, hid, hlen, hagent, packetLines]
  simp only [field, List.flatten_cons, List.flatten_nil, List.append_assoc, List.cons_append,
    List.nil_append]

/-- The numbers of a machine word have at most 19 digits. -/
theorem length_decimal_le {n : ℕ} (h : n < 2 ^ 63) : (decimal n).length ≤ 19 := by
  rw [decimal, List.length_map]
  exact Nat.toDigits_length 10 n 19 (by decide) (Nat.lt_trans h (by decide))

/-- The field of such a number is within the limit of a line. -/
theorem length_field_decimal {name : List UInt8} {n : ℕ} (hname : name.length ≤ 100)
    (hn : n < 2 ^ 63) : (field name (decimal n)).length + 2 ≤ 1024 := by
  have hdigits := length_decimal_le hn
  simp only [field, List.length_append, List.length_cons]
  omega

/-- The headers of a packet, the last one first. -/
def requestHeaders (transactionId : ℕ) (buff : List UInt8) : List (List UInt8 × List UInt8) :=
  [(bytes "User-Agent", bytes "SimpleBlockingHTTPTransport"),
    (bytes "Content-Length", decimal buff.length),
    (bytes "Transaction-Id", decimal transactionId)]

theorem fields_packetLines (transactionId : ℕ) (buff : List UInt8) :
    fields (packetLines transactionId buff) = requestHeaders transactionId buff := by
  have hid : HTTPUtility.parseHeader
      (field (bytes "Transaction-Id") (decimal transactionId) ++ crlf) =
        some (bytes "Transaction-Id", decimal transactionId) :=
    parseHeader_field (noSpace_of_all (by decide)) (by decide) (noSpace_decimal _)
  have hlen : HTTPUtility.parseHeader
      (field (bytes "Content-Length") (decimal buff.length) ++ crlf) =
        some (bytes "Content-Length", decimal buff.length) :=
    parseHeader_field (noSpace_of_all (by decide)) (by decide) (noSpace_decimal _)
  have hagent : HTTPUtility.parseHeader
      (field (bytes "User-Agent") (bytes "SimpleBlockingHTTPTransport") ++ crlf) =
        some (bytes "User-Agent", bytes "SimpleBlockingHTTPTransport") := by decide
  rw [fields, packetLines, List.filterMap_cons_some hid, List.filterMap_cons_some hlen,
    List.filterMap_cons_some hagent]
  rfl

/-- A packet starts with a head within the limits. -/
theorem isHead_packet {transactionId : ℕ} {buff : List UInt8} (hid : transactionId < 2 ^ 63)
    (hbuff : buff.length < 2 ^ 63) :
    IsHead {} (bytes "GET / HTTP/1.1\r\n") (packetLines transactionId buff) where
  isLine := by decide
  length_le := show _ ≤ 2048 by decide
  parsed := by decide
  lines := by
    intro line hline
    simp only [packetLines, List.mem_cons, List.not_mem_nil, or_false] at hline
    rcases hline with rfl | rfl | rfl
    · exact isHeaderLine_field (noSpace_of_all (by decide)) (noSpace_decimal _)
        (length_field_decimal (by decide) hid)
    · exact isHeaderLine_field (noSpace_of_all (by decide)) (noSpace_decimal _)
        (length_field_decimal (by decide) hbuff)
    · exact isHeaderLine_field (noSpace_of_all (by decide)) (noSpace_of_all (by decide))
        (show _ ≤ 1024 by decide)
  blank := show _ ≤ 1024 by decide

theorem readHead_packet {transactionId : ℕ} {buff : List UInt8} (hid : transactionId < 2 ^ 63)
    (hbuff : buff.length < 2 ^ 63) (rest : List UInt8) :
    readHead {} .unbounded (SimpleBlockingHTTPTransport.generatePacket transactionId buff ++ rest) =
      .ok (requestHeaders transactionId buff) (buff ++ rest) := by
  rw [generatePacket_lines, readHead_of_head (isHead_packet hid hbuff), fields_packetLines]
  rfl

theorem readNumber_decimal {headers : List (List UInt8 × List UInt8)} {name : List UInt8} {n : ℕ}
    (h : headers.lookup name = some (decimal n)) : readNumber headers name = .ok n := by
  unfold readNumber
  rw [h]
  simp only [isalnum_of_isdigit (isdigit_decimal n), if_true, pyInt, isdigit_decimal,
    digitsValue_decimal]

/-- A packet at the front of the stream is read, and nothing else. -/
theorem read_packet (p : SimpleBlockingHTTPTransport.Packet) (rest : List UInt8) :
    read {} .unbounded (SimpleBlockingHTTPTransport.generatePacket p.transactionId p.buff ++ rest) =
      .ok (p.transactionId, some p.buff) rest := by
  have hbuff : p.buff.length < 2 ^ 63 := Nat.lt_of_le_of_lt p.length_le (by decide)
  have hpos : 0 < p.buff.length := List.length_pos_iff.mpr p.buff_ne_nil
  have hid : readNumber (requestHeaders p.transactionId p.buff) (bytes "Transaction-Id") =
      .ok p.transactionId := readNumber_decimal rfl
  have hlen : readNumber (requestHeaders p.transactionId p.buff) (bytes "Content-Length") =
      .ok p.buff.length := readNumber_decimal rfl
  have hbody : IOStream.takeBytes p.buff.length (p.buff ++ rest) = .ok p.buff rest := by
    have hle : p.buff.length ≤ (p.buff ++ rest).length := by
      rw [List.length_append]
      omega
    rw [IOStream.takeBytes, if_pos hle, List.take_left, List.drop_left]
  rw [read, StreamRead.bind_apply, readHead_packet p.transactionId_lt hbuff]
  simp only [readBody, IOStream.unbounded_readBytes, hid, hlen, lift, StreamRead.bind_apply,
    StreamRead.pure, if_pos hpos, hbody, StreamRead.pure_apply]

/-- However many packets a client has written, as many reads return them in order, and
leave what comes after them, on a stream that has room. -/
theorem requests_read (packets : List SimpleBlockingHTTPTransport.Packet) (rest : List UInt8) :
    (read {} .unbounded).times packets.length
        ((packets.flatMap fun p =>
          SimpleBlockingHTTPTransport.generatePacket p.transactionId p.buff) ++ rest) =
      .ok (packets.map fun p => (p.transactionId, some p.buff)) rest :=
  StreamRead.times_flatMap read_packet packets rest

/-- A body like the end of a head, and a request behind it. -/
theorem requests_read_two :
    (read {} .unbounded).times 2
        ((SimpleBlockingHTTPTransport.generatePacket 0 (crlf ++ crlf) ++
          (SimpleBlockingHTTPTransport.generatePacket 7 [0, 255] ++ [])) ++ [71]) =
      .ok [(0, some (crlf ++ crlf)), (7, some [0, 255])] [71] :=
  requests_read
    [⟨0, crlf ++ crlf, by decide, by decide, by decide⟩, ⟨7, [0, 255], by decide, by decide,
      by decide⟩] [71]

end HTTPTransport

end SummerRpc
