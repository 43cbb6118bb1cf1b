import SummerRpc.Message.Value
import SummerRpc.Transport.Stream
import Mathlib.Algebra.Order.Ring.Nat

/-! # The HTTP transport

`HTTPUtility` and `HTTPTransport` of `extension/http_transport.py`: what the server
reads from and writes to an `IOStream`. Strings are bytes.

* `HTTPTransport.read`: the reading coroutine, over any stream;
* `readHead_expected`, `read_of_head`: where the stream has room it raises what the server
  expects, unless a header has a number that `isalnum` lets through and `int` does not.
-/

namespace SummerRpc

/-- `"\r\n"` -/
def crlf : List UInt8 := [13, 10]

/-- `s.split(separator, 1)`, when it has two parts. -/
def splitOnce (separator : UInt8) : List UInt8 → Option (List UInt8 × List UInt8)
  | [] => none
  | b :: bs =>
    if b = separator then some ([], bs)
    else (splitOnce separator bs).map fun p => (b :: p.1, p.2)

/-- The bytes `strip` removes. -/
def isSpace (b : UInt8) : Bool := b = 32 || (9 ≤ b && b ≤ 13)

/-- `s.strip()` -/
def strip (s : List UInt8) : List UInt8 := ((s.dropWhile isSpace).reverse.dropWhile isSpace).reverse

/-- `s[:-2]` when `s` ends with `"\r\n"`. -/
def withoutCrlf (s : List UInt8) : List UInt8 :=
  if crlf.isSuffixOf s then s.take (s.length - 2) else s

def isDigit (b : UInt8) : Bool := 48 ≤ b && b ≤ 57

/-- `s.lower()` of a byte. -/
def toLower (b : UInt8) : UInt8 := if 65 ≤ b && b ≤ 90 then b + 32 else b

def isAlpha (b : UInt8) : Bool := 97 ≤ toLower b && toLower b ≤ 122

/-- `s.isalnum()` -/
def isalnum (s : List UInt8) : Bool := !s.isEmpty && s.all fun b => isDigit b || isAlpha b

/-- `s.isdigit()` -/
def isdigit (s : List UInt8) : Bool := !s.isEmpty && s.all isDigit

/-- The number a string of digits stands for. -/
def digitsValue (s : List UInt8) : ℕ := s.foldl (fun n b => 10 * n + (b.toNat - 48)) 0

/-- The `ValueError` of `int`. -/
def invalidLiteral : Exc :=
  { cls := .valueError, msg := "invalid literal for int() with base 10" }

/-- `int(s)` of a string that `isalnum` accepts: of those only the digits are the
literal of a number. -/
def pyInt (s : List UInt8) : Except Exc ℕ :=
  if isdigit s then .ok (digitsValue s) else .error invalidLiteral

/-- `"%d" % n` -/
def decimal (n : ℕ) : List UInt8 := (Nat.toDigits 10 n).map fun c => UInt8.ofNat c.toNat

namespace HTTPUtility

/-- `RequestHandler.SUPPORTED_METHODS` -/
def supportedMethods : List (List UInt8) :=
  [bytes "GET", bytes "HEAD", bytes "POST", bytes "DELETE", bytes "PATCH", bytes "PUT",
    bytes "OPTIONS"]

/-- The versions `parse_request_line` and `parse_response_line` know. -/
def versions : List (List UInt8) := [bytes "0.9", bytes "1.0", bytes "1.1"]

/-- `parse_request_line`: method, uri and version, the version as it is written. -/
def parseRequestLine (requestLine : List UInt8) :
    Option (List UInt8 × List UInt8 × List UInt8) := do
  let (requestMethod, rest) ← splitOnce 32 (withoutCrlf requestLine)
  let (requestUri, version) ← splitOnce 32 rest
  if requestMethod ∉ supportedMethods then none
  else
    let (protocol, number) ← splitOnce 47 version
    if protocol.map toLower ≠ bytes "http" then none
    else if number ∉ versions then none
    else some (requestMethod, requestUri, number)

/-- `parse_header` -/
def parseHeader (headerString : List UInt8) : Option (List UInt8 × List UInt8) := do
  let (name, value) ← splitOnce 58 (withoutCrlf headerString)
  return (strip name, strip value)

end HTTPUtility

namespace HTTPTransport

open StreamRead

/-- The limits `HTTPTransport.__init__` takes. -/
structure Limits where
  maxRequestLineLength : ℕ := 2048
  maxHeaderLength : ℕ := 1024
  maxHeaderCount : ℕ := 128

/-- `raise UnsatisfiableReadError` -/
def unsatisfiable : Exc := { cls := .unsatisfiableReadError }

/-- The headers, the last one added first; `raise UnsatisfiableReadError` when the
blank line is not among the first `count` lines. -/
def readHeaders (limits : Limits) (stream : IOStream) :
    ℕ → List (List UInt8 × List UInt8) → StreamRead (List (List UInt8 × List UInt8))
  | 0, _ => raise unsatisfiable
  | count + 1, headers => do
    let header ← stream.readUntil crlf limits.maxHeaderLength
    if header = crlf then return headers
    else
      match HTTPUtility.parseHeader header with
      | some pair => readHeaders limits stream count (pair :: headers)
      | none => readHeaders limits stream count headers

/-- The number in a header: `UnsatisfiableReadError` when it is missing, empty or not
alphanumeric. -/
def readNumber (headers : List (List UInt8 × List UInt8)) (name : List UInt8) : Except Exc ℕ :=
  match headers.lookup name with
  | none => .error unsatisfiable
  | some value => if isalnum value then pyInt value else .error unsatisfiable

/-- A computation that reads nothing. -/
def lift {α : Type} (x : Except Exc α) : StreamRead α :=
  match x with
  | .ok value => StreamRead.pure value
  | .error ex => raise ex

/-- `read`, up to the blank line: the request line is checked and forgotten. -/
def readHead (limits : Limits) (stream : IOStream) :
    StreamRead (List (List UInt8 × List UInt8)) := do
  let requestLine ← stream.readUntil crlf limits.maxRequestLineLength
  match HTTPUtility.parseRequestLine requestLine with
  | none => raise unsatisfiable
  | some _ => readHeaders limits stream limits.maxHeaderCount []

/-- `read`, after the blank line; there is no body when its length is zero. -/
def readBody (stream : IOStream) (headers : List (List UInt8 × List UInt8)) :
    StreamRead (ℕ × Option (List UInt8)) := do
  let transactionId ← lift (readNumber headers (bytes "Transaction-Id"))
  let contentLength ← lift (readNumber headers (bytes "Content-Length"))
  if 0 < contentLength then do
    let body ← stream.readBytes contentLength
    return (transactionId, some body)
  else return (transactionId, none)

/-- `read` -/
def read (limits : Limits) (stream : IOStream) : StreamRead (ℕ × Option (List UInt8)) := do
  let headers ← readHead limits stream
  readBody stream headers

/-- `generate_packet` -/
def generatePacket (transactionId : ℕ) (buff : List UInt8) : List UInt8 :=
  bytes "HTTP/1.1 200 OK\r\n" ++
    (bytes "Transaction-Id: " ++ decimal transactionId ++ crlf) ++
    (bytes "Content-Length: " ++ decimal buff.length ++ crlf) ++
    crlf ++
    buff

/-! ## What `read` raises

On a stream that has room for what is sent. -/

/-- `UnsatisfiableReadError` or `StreamClosedError`, the exceptions of a read that
the server expects. -/
def Expected (ex : Exc) : Prop :=
  ex.cls = .unsatisfiableReadError ∨ ex.cls = .streamClosedError

theorem takeUntil_expected {delimiter input : List UInt8} {maxBytes : ℕ} {ex : Exc}
    (h : IOStream.takeUntil delimiter maxBytes input = .raised ex) : Expected ex := by
  unfold IOStream.takeUntil at h
  split at h
  · split at h
    · cases h
    · cases h
      exact Or.inr rfl
  · split at h
    · cases h
    · cases h
      exact Or.inr rfl

/-- An exception of a sequence is that of its first part, or of the second one on the
bytes the first one has left. -/
theorem bind_raised {α β : Type} {m : StreamRead α} {f : α → StreamRead β} {input : List UInt8}
    {ex : Exc} (h : (m >>= f) input = .raised ex) :
    m input = .raised ex ∨ ∃ value rest, m input = .ok value rest ∧ f value rest = .raised ex := by
  rw [StreamRead.bind_apply] at h
  cases hm : m input with
  | ok value rest =>
      rw [hm] at h
      exact Or.inr ⟨value, rest, rfl, h⟩
  | needMore =>
      rw [hm] at h
      cases h
  | raised ex' =>
      rw [hm] at h
      cases h
      exact Or.inl rfl

theorem readHeaders_expected (limits : Limits) {count : ℕ}
    {headers : List (List UInt8 × List UInt8)} {input : List UInt8} {ex : Exc}
    (h : readHeaders limits .unbounded count headers input = .raised ex) : Expected ex := by
  induction count generalizing headers input with
  | zero =>
      cases h
      exact Or.inl rfl
  | succ count ih =>
      rcases bind_raised h with hline | ⟨header, rest, _, hrest⟩
      · exact takeUntil_expected hline
      · by_cases hblank : header = crlf
        · rw [if_pos hblank] at hrest
          cases hrest
        · rw [if_neg hblank] at hrest
          cases hpair : HTTPUtility.parseHeader header with
          | some pair =>
              rw [hpair] at hrest
              exact ih hrest
          | none =>
              rw [hpair] at hrest
              exact ih hrest

theorem readHead_expected (limits : Limits) {input : List UInt8} {ex : Exc}
    (h : readHead limits .unbounded input = .raised ex) : Expected ex := by
  rcases bind_raised h with hline | ⟨line, rest, _, hrest⟩
  · exact takeUntil_expected hline
  · cases hparsed : HTTPUtility.parseRequestLine line with
    | none =>
        rw [hparsed] at hrest
        cases hrest
        exact Or.inl rfl
    | some parsed =>
        rw [hparsed] at hrest
        exact readHeaders_expected limits hrest

/-- A number of a header that is one. -/
def goodNumber (headers : List (List UInt8 × List UInt8)) (name : List UInt8) : Bool :=
  match headers.lookup name with
  | none => false
  | some value => isdigit value

/-- A number of a header that `isalnum` lets through and that is none. -/
def badNumber (headers : List (List UInt8 × List UInt8)) (name : List UInt8) : Bool :=
  match headers.lookup name with
  | none => false
  | some value => isalnum value && !isdigit value

theorem isalnum_of_isdigit {s : List UInt8} (h : isdigit s = true) : isalnum s = true := by
  simp only [isdigit, isalnum, Bool.and_eq_true, List.all_eq_true] at h ⊢
  refine ⟨h.1, ?_⟩
  intro b hb
  rw [h.2 b hb]
  rfl

/-- What reading a number gives. -/
theorem readNumber_eq (headers : List (List UInt8 × List UInt8)) (name : List UInt8) :
    (goodNumber headers name = true ∧ badNumber headers name = false ∧
      ∃ n, readNumber headers name = .ok n) ∨
    (goodNumber headers name = false ∧ badNumber headers name = false ∧
      readNumber headers name = .error unsatisfiable) ∨
    (goodNumber headers name = false ∧ badNumber headers name = true ∧
      ∃ ex, readNumber headers name = .error ex ∧ ex.cls = .valueError) := by
  unfold readNumber goodNumber badNumber
  cases headers.lookup name with
  | none => exact Or.inr (Or.inl ⟨rfl, rfl, rfl⟩)
  | some value =>
      by_cases halnum : isalnum value = true
      · by_cases hdigit : isdigit value = true
        · refine Or.inl ⟨hdigit, by simp [hdigit], digitsValue value, ?_⟩
          simp [halnum, pyInt, hdigit]
        · have herror : pyInt value = .error invalidLiteral := if_neg hdigit
          refine Or.inr (Or.inr ⟨by simpa using hdigit, by simp [halnum, hdigit], invalidLiteral,
            ?_, rfl⟩)
          simp only [halnum, if_true]
          exact herror
      · have hdigit : isdigit value = false := by
          rw [← Bool.not_eq_true]
          exact fun hd => halnum (isalnum_of_isdigit hd)
        refine Or.inr (Or.inl ⟨hdigit, by simp [halnum], ?_⟩)
        simp [halnum]

/-- The heads whose two numbers are digits as soon as they are alphanumeric. The
second one is not looked at when the first one is missing. -/
def numbersOk (headers : List (List UInt8 × List UInt8)) : Bool :=
  !badNumber headers (bytes "Transaction-Id") &&
    !(goodNumber headers (bytes "Transaction-Id") && badNumber headers (bytes "Content-Length"))

/-- After the head, an exception of `read` is expected exactly when the numbers are
in order. -/
theorem read_of_head (limits : Limits) {input rest : List UInt8}
    {headers : List (List UInt8 × List UInt8)}
    (hhead : readHead limits .unbounded input = .ok headers rest) :
    if numbersOk headers then ∀ ex, read limits .unbounded input = .raised ex → Expected ex
    else ∃ ex, read limits .unbounded input = .raised ex ∧ ex.cls = .valueError := by
  rw [read, StreamRead.bind_apply, hhead]
  simp only [readBody]
  rcases readNumber_eq headers (bytes "Transaction-Id") with
    ⟨hgood, hbad, n, hn⟩ | ⟨hgood, hbad, hn⟩ | ⟨_, hbad, ex, hn, hcls⟩
  · rcases readNumber_eq headers (bytes "Content-Length") with
      ⟨_, hbad', m, hm⟩ | ⟨_, hbad', hm⟩ | ⟨_, hbad', ex, hm, hcls⟩
    · have hok : numbersOk headers = true := by simp [numbersOk, hbad, hbad']
      rw [if_pos hok, hn, hm]
      intro ex hex
      -- reading the body raises nothing
      by_cases hpos : 0 < m
      · by_cases hlen : m ≤ rest.length
        · simp [StreamRead.bind_apply, lift, StreamRead.pure, IOStream.takeBytes, hpos, hlen,
            StreamRead.pure_apply] at hex
        · simp [StreamRead.bind_apply, lift, StreamRead.pure, IOStream.takeBytes, hpos, hlen] at hex
      · simp [StreamRead.bind_apply, lift, StreamRead.pure, hpos, StreamRead.pure_apply] at hex
    · have hok : numbersOk headers = true := by simp [numbersOk, hbad, hbad']
      rw [if_pos hok, hn, hm]
      intro ex hex
      cases hex
      exact Or.inl rfl
    · have hno : numbersOk headers = false := by simp [numbersOk, hgood, hbad']
      rw [if_neg (by simp [hno]), hn, hm]
      exact ⟨ex, rfl, hcls⟩
  · have hok : numbersOk headers = true := by simp [numbersOk, hgood, hbad]
    rw [if_pos hok, hn]
    intro ex hex
    cases hex
    exact Or.inl rfl
  · have hno : numbersOk headers = false := by simp [numbersOk, hbad]
    rw [if_neg (by simp [hno]), hn]
    exact ⟨ex, rfl, hcls⟩

end HTTPTransport

end SummerRpc
