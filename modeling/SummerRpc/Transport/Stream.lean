import SummerRpc.Exception
import Mathlib.Data.List.Infix

/-! # Reading from an `IOStream`

The server reads from tornado's `IOStream` inside coroutines: `yield
stream.read_bytes(n)` suspends until `n` bytes have arrived. A coroutine that
only reads is a function of the bytes received so far and not yet consumed. It
asks for more (`needMore`), returns a value and the bytes it has left, or raises.
Running it again on a longer input is resuming it, because nobody else reads from
the stream.

The stream itself is a parameter.

* `IOStream.unbounded`: the two reads where the buffer of the stream has room;
* `IOStream.Documented`: what is known of a stream with a `max_buffer_size`;
* `IOStream.Buffer.eager`: the one that fills its buffer whenever it may.
-/

namespace SummerRpc

/-- How far a reading coroutine gets on the bytes received so far. -/
inductive ReadResult (α : Type) where
  | ok (value : α) (rest : List UInt8)
  | needMore
  | raised (ex : Exc)
deriving DecidableEq, Repr

/-- A coroutine that reads from a stream. -/
def StreamRead (α : Type) : Type := List UInt8 → ReadResult α

namespace StreamRead

variable {α β : Type}

/-- `raise gen.Return(value)` -/
protected def pure (value : α) : StreamRead α := fun input => .ok value input

/-- Sequencing: the second coroutine reads what the first one left. -/
protected def bind (m : StreamRead α) (f : α → StreamRead β) : StreamRead β := fun input =>
  match m input with
  | .ok value rest => f value rest
  | .needMore => .needMore
  | .raised ex => .raised ex

instance : Monad StreamRead where
  pure := StreamRead.pure
  bind := StreamRead.bind

/-- `raise ex` -/
def raise (ex : Exc) : StreamRead α := fun _ => .raised ex

theorem pure_apply (value : α) (input : List UInt8) :
    (Pure.pure value : StreamRead α) input = .ok value input := rfl

theorem bind_apply (m : StreamRead α) (f : α → StreamRead β) (input : List UInt8) :
    (m >>= f) input =
      match m input with
      | .ok value rest => f value rest
      | .needMore => .needMore
      | .raised ex => .raised ex := rfl

/-- The coroutine run a number of times, one after the other. -/
def times (m : StreamRead α) : ℕ → StreamRead (List α)
  | 0 => pure []
  | n + 1 => do
    let value ← m
    let values ← times m n
    return value :: values

/-- A coroutine that reads what `encode` writes, and no more, reads a sequence of them in
order. -/
theorem times_flatMap {m : StreamRead α} {encode : β → List UInt8} {value : β → α}
    (h : ∀ x rest, m (encode x ++ rest) = .ok (value x) rest) (xs : List β) (rest : List UInt8) :
    times m xs.length (xs.flatMap encode ++ rest) = .ok (xs.map value) rest := by
  induction xs with
  | nil => rfl
  | cons x xs ih =>
      rw [List.length_cons, List.flatMap_cons, List.append_assoc, times, bind_apply, h]
      simp only [bind_apply, ih, pure_apply, List.map_cons]

end StreamRead

/-- An `IOStream`, as `transport.read` uses it: `stream.read_bytes(num)` and
`stream.read_until(delimiter, max_bytes)`. -/
structure IOStream where
  readBytes : ℕ → StreamRead (List UInt8)
  readUntil : List UInt8 → ℕ → StreamRead (List UInt8)

namespace IOStream

/-- Exactly `num` bytes. -/
def takeBytes (num : ℕ) : StreamRead (List UInt8) := fun input =>
  if num ≤ input.length then .ok (input.take num) (input.drop num) else .needMore

/-- The bytes up to and including the first occurrence of `delimiter`, and the
bytes after it. -/
def splitAfter (delimiter : List UInt8) : List UInt8 → Option (List UInt8 × List UInt8)
  | [] => if delimiter = [] then some ([], []) else none
  | b :: bs =>
    if delimiter.isPrefixOf (b :: bs) then
      some ((b :: bs).take delimiter.length, (b :: bs).drop delimiter.length)
    else (splitAfter delimiter bs).map fun p => (b :: p.1, p.2)

/-- The bytes up to and including the first `delimiter`. When it is not found within
`maxBytes` bytes the stream closes the connection. -/
def takeUntil (delimiter : List UInt8) (maxBytes : ℕ) : StreamRead (List UInt8) := fun input =>
  match splitAfter delimiter input with
  | some (line, rest) =>
      if line.length ≤ maxBytes then .ok line rest
      else .raised { cls := .streamClosedError }
  | none =>
      if input.length ≤ maxBytes then .needMore
      else .raised { cls := .streamClosedError }

/-- A stream that has room for whatever is sent. -/
def unbounded : IOStream where
  readBytes := takeBytes
  readUntil := takeUntil

@[simp]
theorem unbounded_readBytes : unbounded.readBytes = takeBytes := rfl

@[simp]
theorem unbounded_readUntil : unbounded.readUntil = takeUntil := rfl

/-- What is found is a prefix of the input that ends with the delimiter. -/
theorem splitAfter_some {delimiter input line rest : List UInt8}
    (h : splitAfter delimiter input = some (line, rest)) :
    input = line ++ rest ∧ delimiter.length ≤ line.length := by
  induction input generalizing line with
  | nil =>
      unfold splitAfter at h
      split at h
      · rename_i hnil
        cases h
        exact ⟨rfl, Nat.le_of_eq (by rw [hnil])⟩
      · cases h
  | cons b bs ih =>
      unfold splitAfter at h
      split at h
      · rename_i hpre
        cases h
        have hle := (List.isPrefixOf_iff_prefix.mp hpre).length_le
        refine ⟨(List.take_append_drop _ _).symm, ?_⟩
        rw [List.length_take]
        omega
      · obtain ⟨⟨l, r⟩, hfound, heq⟩ := Option.map_eq_some_iff.mp h
        cases heq
        obtain ⟨hsplit, hle⟩ := ih hfound
        exact ⟨by rw [hsplit, List.cons_append], Nat.le_succ_of_le hle⟩

/-- A delimiter that has been found is found when more input has arrived. -/
theorem splitAfter_append {delimiter input line rest : List UInt8} (hd : delimiter ≠ [])
    (h : splitAfter delimiter input = some (line, rest)) (more : List UInt8) :
    splitAfter delimiter (input ++ more) = some (line, rest ++ more) := by
  induction input generalizing line with
  | nil =>
      unfold splitAfter at h
      rw [if_neg hd] at h
      cases h
  | cons b bs ih =>
      unfold splitAfter at h
      rw [List.cons_append, splitAfter]
      split at h
      · rename_i hpre
        cases h
        have hfront := List.isPrefixOf_iff_prefix.mp hpre
        have hmore : delimiter.isPrefixOf (b :: (bs ++ more)) = true :=
          List.isPrefixOf_iff_prefix.mpr (hfront.trans (List.prefix_append (b :: bs) more))
        rw [if_pos hmore, ← List.cons_append, List.take_append_of_le_length hfront.length_le,
          List.drop_append_of_le_length hfront.length_le]
      · rename_i hpre
        obtain ⟨⟨l, r⟩, hfound, heq⟩ := Option.map_eq_some_iff.mp h
        cases heq
        have hmore : ¬ delimiter.isPrefixOf (b :: (bs ++ more)) = true := by
          -- the delimiter is found later, so the bytes up to here are there already
          intro hlong
          obtain ⟨hsplit, hle⟩ := splitAfter_some hfound
          have hlength : delimiter.length ≤ (b :: bs).length := by
            rw [hsplit, List.length_cons, List.length_append]
            omega
          exact hpre (List.isPrefixOf_iff_prefix.mpr (List.prefix_of_prefix_length_le
            (List.isPrefixOf_iff_prefix.mp hlong) (List.prefix_append (b :: bs) more) hlength))
        rw [if_neg hmore, ih hfound]
        rfl

/-! ## The buffer of a stream -/

/-- The read has failed because the buffer was full. The stream has closed itself then: a
read that finds it full while it takes bytes from the socket raises `StreamBufferFullError`,
one that was suspended `StreamClosedError`. -/
def Full {α : Type} (r : ReadResult α) : Prop :=
  ∃ ex, r = .raised ex ∧ (ex.cls = .streamBufferFullError ∨ ex.cls = .streamClosedError)

/-- The bounds of a stream: `max_buffer_size`, and how many bytes it may have taken from the
socket beyond those that a read asks for. -/
structure Buffer where
  maxBufferSize : ℕ
  readAhead : ℕ

/-- However the unread bytes arrive, a read that asks for `num` of them finds room for what
the stream takes. -/
def Buffer.Fits (b : Buffer) (num : ℕ) (unread : List UInt8) : Prop :=
  unread.length ≤ b.maxBufferSize ∨ num + b.readAhead ≤ b.maxBufferSize

instance Buffer.decidableFits (b : Buffer) (num : ℕ) (unread : List UInt8) :
    Decidable (b.Fits num unread) :=
  inferInstanceAs (Decidable (_ ∨ _))

theorem Buffer.Fits.of_append {b : Buffer} {num : ℕ} {line rest : List UInt8}
    (h : b.Fits num (line ++ rest)) : b.Fits num rest := by
  rcases h with h | h
  · rw [List.length_append] at h
    exact Or.inl (Nat.le_trans (Nat.le_add_left _ _) h)
  · exact Or.inr h

/-- The reads of a stream with a `max_buffer_size`. Where there is room they do what the
unbounded ones do; what needs more bytes than the buffer holds fails; in between it depends
on how the bytes arrive. -/
structure Documented (io : IOStream) (b : Buffer) : Prop where
  bytes_or_full (num : ℕ) (unread : List UInt8) :
    io.readBytes num unread = takeBytes num unread ∨
      (¬ b.Fits num unread ∧ Full (io.readBytes num unread))
  until_or_full (delimiter : List UInt8) (maxBytes : ℕ) (unread : List UInt8) :
    io.readUntil delimiter maxBytes unread = takeUntil delimiter maxBytes unread ∨
      (¬ b.Fits maxBytes unread ∧ Full (io.readUntil delimiter maxBytes unread))
  bytes_over (num : ℕ) (unread : List UInt8) : b.maxBufferSize < num →
    b.maxBufferSize < unread.length → Full (io.readBytes num unread)
  until_over (delimiter : List UInt8) (maxBytes : ℕ) (unread : List UInt8) :
    b.maxBufferSize < maxBytes → b.maxBufferSize < unread.length →
    (∀ line rest, splitAfter delimiter unread = some (line, rest) →
      b.maxBufferSize < line.length) →
    Full (io.readUntil delimiter maxBytes unread)

/-- `raise StreamBufferFullError` -/
def bufferFull : Exc := { cls := .streamBufferFullError }

theorem full_bufferFull {α : Type} : Full (.raised bufferFull : ReadResult α) :=
  ⟨bufferFull, rfl, Or.inl rfl⟩

/-- The stream that fills its buffer whenever it may. -/
def Buffer.eager (b : Buffer) : IOStream where
  readBytes num := fun unread =>
    if b.Fits num unread then takeBytes num unread else .raised bufferFull
  readUntil delimiter maxBytes := fun unread =>
    if b.Fits maxBytes unread then takeUntil delimiter maxBytes unread else .raised bufferFull

theorem Buffer.not_fits {b : Buffer} {num : ℕ} {unread : List UInt8} (hnum : b.maxBufferSize < num)
    (hunread : b.maxBufferSize < unread.length) : ¬ b.Fits num unread := by
  rintro (h | h)
  · omega
  · omega

theorem Buffer.eager_documented (b : Buffer) : b.eager.Documented b where
  bytes_or_full num unread := by
    by_cases h : b.Fits num unread
    · exact Or.inl (if_pos h)
    · refine Or.inr ⟨h, ?_⟩
      rw [show b.eager.readBytes num unread = .raised bufferFull from if_neg h]
      exact full_bufferFull
  until_or_full delimiter maxBytes unread := by
    by_cases h : b.Fits maxBytes unread
    · exact Or.inl (if_pos h)
    · refine Or.inr ⟨h, ?_⟩
      rw [show b.eager.readUntil delimiter maxBytes unread = .raised bufferFull from if_neg h]
      exact full_bufferFull
  bytes_over num unread hnum hunread := by
    rw [show b.eager.readBytes num unread = .raised bufferFull from
      if_neg (Buffer.not_fits hnum hunread)]
    exact full_bufferFull
  until_over delimiter maxBytes unread hmax hunread _ := by
    rw [show b.eager.readUntil delimiter maxBytes unread = .raised bufferFull from
      if_neg (Buffer.not_fits hmax hunread)]
    exact full_bufferFull

namespace Documented

variable {io : IOStream} {b : Buffer} (h : io.Documented b)
include h

theorem readUntil_eq {delimiter : List UInt8} {maxBytes : ℕ} {unread : List UInt8}
    (hfits : b.Fits maxBytes unread) :
    io.readUntil delimiter maxBytes unread = takeUntil delimiter maxBytes unread := by
  rcases h.until_or_full delimiter maxBytes unread with heq | ⟨hno, _⟩
  · exact heq
  · exact absurd hfits hno

end Documented

end IOStream

end SummerRpc
