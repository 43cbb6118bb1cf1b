import Mathlib.Data.Nat.Notation

/-! # Exceptions

The exception classes the program raises or catches, with their subclass
relation: those of `exception.py` and of the helpers, and the classes of Python,
of `socket` and of tornado that its `except` clauses name. An `except` clause is
a test with `ExcClass.isA`, so which handler an exception reaches is decided by
the class hierarchy, as in the source.
-/

namespace SummerRpc

/-- Exception classes. `exception` stands for every class that has none of the
other classes among its ancestors. -/
inductive ExcClass where
  | exception
  -- Python, `struct`, `socket`
  | typeError | valueError | unicodeError | keyError | indexError | attributeError
  | runtimeError | overflowError | structError | socketError | socketTimeout
  -- tornado
  | unsatisfiableReadError | streamClosedError | streamBufferFullError
  -- `helper/list.py`
  | listFullError | listEmptyError
  -- `exception.py`
  | baseError
  | stubSideError | filteredError
  | transportError | blockingTransportError | socketAlreadyClosedError | invalidPacketError
  | serializerError | serializationError | deserializationError
  | remoteError | noRemoteServerError | concurrencyError | lookupMethodError
  | submitTaskToProcessPoolError | methodExecutionError | requestValidateError
  | invalidResponseError
  | connectionError | connectionWriteTimeout | connectionAbortError | connectionReadTimeout
  | maxPendingWritesReachedError | maxPendingReadsReachedError
  | connectionPoolError | noAvailableConnectionError | connectionPoolAlreadyClosedError
  | createConnectionError
deriving DecidableEq, Repr

namespace ExcClass

/-- The base class; `exception` is its own. -/
def parent : ExcClass → ExcClass
  | unicodeError => valueError
  | socketTimeout => socketError
  | stubSideError | transportError | serializerError | remoteError | connectionError
  | connectionPoolError => baseError
  | filteredError => stubSideError
  | blockingTransportError | invalidPacketError => transportError
  | socketAlreadyClosedError => blockingTransportError
  | serializationError | deserializationError => serializerError
  | noRemoteServerError | concurrencyError | lookupMethodError | submitTaskToProcessPoolError
  | methodExecutionError | requestValidateError | invalidResponseError => remoteError
  | connectionWriteTimeout | connectionAbortError | connectionReadTimeout
  | maxPendingWritesReachedError | maxPendingReadsReachedError => connectionError
  | noAvailableConnectionError | connectionPoolAlreadyClosedError | createConnectionError =>
      connectionPoolError
  | _ => exception

/-- `issubclass(c, d)`. No class of the hierarchy is more than four levels deep. -/
def isA (c d : ExcClass) : Bool :=
  c = d || c.parent = d || c.parent.parent = d || c.parent.parent.parent = d
    || c.parent.parent.parent.parent = d

/-- `__name__` -/
def name : ExcClass → String
  | exception => "Exception"
  | typeError => "TypeError"
  | valueError => "ValueError"
  | unicodeError => "UnicodeError"
  | keyError => "KeyError"
  | indexError => "IndexError"
  | attributeError => "AttributeError"
  | runtimeError => "RuntimeError"
  | overflowError => "OverflowError"
  | structError => "error"
  | socketError => "error"
  | socketTimeout => "timeout"
  | unsatisfiableReadError => "UnsatisfiableReadError"
  | streamClosedError => "StreamClosedError"
  | streamBufferFullError => "StreamBufferFullError"
  | listFullError => "ListFullError"
  | listEmptyError => "ListEmptyError"
  | baseError => "BaseError"
  | stubSideError => "StubSideError"
  | filteredError => "FilteredError"
  | transportError => "TransportError"
  | blockingTransportError => "BlockingTransportError"
  | socketAlreadyClosedError => "SocketAlreadyClosedError"
  | invalidPacketError => "InvalidPacketError"
  | serializerError => "SerializerError"
  | serializationError => "SerializationError"
  | deserializationError => "DeserializationError"
  | remoteError => "RemoteError"
  | noRemoteServerError => "NoRemoteServerError"
  | concurrencyError => "ConcurrencyError"
  | lookupMethodError => "LookupMethodError"
  | submitTaskToProcessPoolError => "SubmitTaskToProcessPoolError"
  | methodExecutionError => "MethodExecutionError"
  | requestValidateError => "RequestValidateError"
  | invalidResponseError => "InvalidResponseError"
  | connectionError => "ConnectionError"
  | connectionWriteTimeout => "ConnectionWriteTimeout"
  | connectionAbortError => "ConnectionAbortError"
  | connectionReadTimeout => "ConnectionReadTimeout"
  | maxPendingWritesReachedError => "MaxPendingWritesReachedError"
  | maxPendingReadsReachedError => "MaxPendingReadsReachedError"
  | connectionPoolError => "ConnectionPoolError"
  | noAvailableConnectionError => "NoAvailableConnectionError"
  | connectionPoolAlreadyClosedError => "ConnectionPoolAlreadyClosedError"
  | createConnectionError => "CreateConnectionError"

end ExcClass

/-- A raised exception: its class, its message and, for a socket error, its errno. -/
structure Exc where
  cls : ExcClass
  msg : String := ""
  errno : Option ℕ := none
deriving DecidableEq, Repr

/-- `errno.EINTR`: the call was interrupted by a signal. -/
def EINTR : ℕ := 4

/-- `errno.EBADF`: the descriptor has been closed. -/
def EBADF : ℕ := 9

end SummerRpc
