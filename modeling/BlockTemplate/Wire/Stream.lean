import BlockTemplate.Wire.Bytes

/-!
# Input streams

The reading half of a `std::istream` over a byte string: the bytes not read
yet and the `good` flag.  A read past the end clears the flag, and nothing
sets it again; what a failed read returns is zero.
-/

namespace BlockTemplate

structure IStream where
  rest : Bytes
  good : Bool
deriving DecidableEq

namespace IStream

def fail (stream : IStream) : IStream :=
  { stream with good := false }

/-- `stream.get(c)`. -/
def get (stream : IStream) : Byte × IStream :=
  match stream.good, stream.rest with
  | true, byte :: rest => (byte, ⟨rest, true⟩)
  | _, _ => (0, stream.fail)

/-- `stream.read(buf, size)`. -/
def read (size : Nat) (stream : IStream) : Blob size × IStream :=
  if inside : stream.good ∧ size ≤ stream.rest.length then
    (⟨stream.rest.take size, List.length_take_of_le inside.2⟩,
      ⟨stream.rest.drop size, true⟩)
  else (Blob.zero size, ⟨[], false⟩)

/-- `remaining_bytes`: a stream that is not good has none left. -/
def remainingBytes (stream : IStream) : Nat :=
  if stream.good then stream.rest.length else 0

/-- `EOF == stream.peek()`. -/
def atEnd (stream : IStream) : Bool :=
  !stream.good || stream.rest.isEmpty

@[simp]
theorem get_cons (byte : Byte) (rest : Bytes) :
    get ⟨byte :: rest, true⟩ = (byte, ⟨rest, true⟩) := rfl

@[simp]
theorem get_nil : get ⟨[], true⟩ = (0, ⟨[], false⟩) := rfl

@[simp]
theorem get_bad (rest : Bytes) : get ⟨rest, false⟩ = (0, ⟨rest, false⟩) := rfl

/-- A get that leaves the stream good took one byte from a good stream. -/
theorem get_good
    {stream next : IStream} {byte : Byte}
    (result : stream.get = (byte, next)) (good : next.good = true) :
    stream = ⟨byte :: next.rest, true⟩ := by
  obtain ⟨rest, flag⟩ := stream
  cases flag with
  | false =>
      cases result
      cases good
  | true =>
      cases rest with
      | nil =>
          cases result
          cases good
      | cons head tail =>
          cases result
          rfl

@[simp]
theorem read_append {size : Nat} (value : Blob size) (rest : Bytes) :
    read size ⟨value.bytes ++ rest, true⟩ = (value, ⟨rest, true⟩) := by
  simp [read]

/-- A read that leaves the stream good took exactly its size from a good
stream. -/
theorem read_good
    {size : Nat} {stream next : IStream} {value : Blob size}
    (result : stream.read size = (value, next)) (good : next.good = true) :
    stream = ⟨value.bytes ++ next.rest, true⟩ := by
  unfold read at result
  split at result
  · rename_i inside
    obtain ⟨rest, flag⟩ := stream
    obtain ⟨rfl : flag = true, fits⟩ := inside
    cases result
    simp
  · cases result
    cases good

@[simp]
theorem remainingBytes_good (rest : Bytes) :
    remainingBytes ⟨rest, true⟩ = rest.length := rfl

end IStream

end BlockTemplate
