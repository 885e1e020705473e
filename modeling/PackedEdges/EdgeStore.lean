/-! The edge store keeps one record of fixed size per edge in a flat row of bytes. An access is
refused (`none`) when a byte it needs lies outside that row. -/

namespace PackedEdges

structure EdgeStore where
  bytesPerEdge : Nat
  bytes : Array UInt8
  /-- The bytes make up whole records. -/
  whole : bytesPerEdge ∣ bytes.size
deriving DecidableEq

namespace EdgeStore

/-- The four bytes of a word, least significant first. -/
def wordBytes (value : UInt32) : List UInt8 :=
  [value.toUInt8, (value >>> 8).toUInt8, (value >>> 16).toUInt8, (value >>> 24).toUInt8]

def wordOfBytes (b₀ b₁ b₂ b₃ : UInt8) : UInt32 :=
  b₀.toUInt32 ||| b₁.toUInt32 <<< 8 ||| b₂.toUInt32 <<< 16 ||| b₃.toUInt32 <<< 24

/-- Puts `new` over the bytes from `pos` on; what would lie outside is dropped. -/
def overwrite (bytes : Array UInt8) (pos : Nat) : List UInt8 → Array UInt8
  | [] => bytes
  | b :: new => overwrite (bytes.setIfInBounds pos b) (pos + 1) new

@[simp] theorem size_overwrite (bytes : Array UInt8) (pos : Nat) (new : List UInt8) :
    (overwrite bytes pos new).size = bytes.size := by
  induction new generalizing bytes pos with
  | nil => rfl
  | cons b new ih => simp [overwrite, ih]

def maxSize : Nat := UInt64.size / 2 - 1

def zeroed? (edges bytesPerEdge : Nat) : Option EdgeStore :=
  if edges * bytesPerEdge ≤ maxSize then
    some
      { bytesPerEdge
        bytes := Array.replicate (edges * bytesPerEdge) 0
        whole := by rw [Array.size_replicate]; exact Nat.dvd_mul_left _ _ }
  else none

def empty : EdgeStore where
  bytesPerEdge := 0
  bytes := #[]
  whole := by simp

/-- Number of records; records without bytes do not count. -/
def edgeCount (store : EdgeStore) : Nat :=
  store.bytes.size / store.bytesPerEdge

def recordStart (store : EdgeStore) (edge : Nat) : Nat :=
  edge * store.bytesPerEdge

def byte? (store : EdgeStore) (edge offset : Nat) : Option UInt8 :=
  store.bytes[store.recordStart edge + offset]?

def word? (store : EdgeStore) (edge offset : Nat) : Option UInt32 := do
  let b₀ ← store.byte? edge offset
  let b₁ ← store.byte? edge (offset + 1)
  let b₂ ← store.byte? edge (offset + 2)
  let b₃ ← store.byte? edge (offset + 3)
  return wordOfBytes b₀ b₁ b₂ b₃

/-- Puts `new` at `offset` of an edge's record, if all of it lies inside the store. -/
def write? (store : EdgeStore) (edge offset : Nat) (new : List UInt8) : Option EdgeStore :=
  let pos := store.recordStart edge + offset
  if pos + new.length ≤ store.bytes.size then
    some
      { store with
        bytes := overwrite store.bytes pos new
        whole := by simpa using store.whole }
  else none

def setWord? (store : EdgeStore) (edge offset : Nat) (value : UInt32) : Option EdgeStore :=
  store.write? edge offset (wordBytes value)

def record? (store : EdgeStore) (edge : Nat) : Option (List UInt8) :=
  let start := store.recordStart edge
  if start + store.bytesPerEdge ≤ store.bytes.size then
    some (store.bytes.extract start (start + store.bytesPerEdge)).toList
  else none

def setRecord? (store : EdgeStore) (edge : Nat) (record : List UInt8) : Option EdgeStore :=
  if record.length = store.bytesPerEdge then store.write? edge 0 record else none

theorem bytesPerEdge_of_write? {store store' : EdgeStore} {edge offset : Nat} {new : List UInt8}
    (h : store.write? edge offset new = some store') :
    store'.bytesPerEdge = store.bytesPerEdge := by
  simp only [write?, Option.ite_none_right_eq_some, Option.some.injEq] at h
  rw [← h.2]

theorem size_of_write? {store store' : EdgeStore} {edge offset : Nat} {new : List UInt8}
    (h : store.write? edge offset new = some store') :
    store'.bytes.size = store.bytes.size := by
  simp only [write?, Option.ite_none_right_eq_some, Option.some.injEq] at h
  simp [← h.2]

end EdgeStore

end PackedEdges
