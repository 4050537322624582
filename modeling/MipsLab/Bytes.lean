/-!
# Byte arrays

Reading and overwriting stretches of byte arrays, and growing them with the bytes of a list or with
zeros. Offsets beyond the end read as zero and are not written.
-/

namespace MipsLab.Bytes

/-! ## Single bytes and stretches -/

def get (bytes : ByteArray) (i : Nat) : UInt8 := if h : i < bytes.size then bytes[i] else 0

def put (bytes : ByteArray) (i : Nat) (b : UInt8) : ByteArray :=
  if h : i < bytes.size then bytes.set i b h else bytes

def slice (bytes : ByteArray) (start count : Nat) : List UInt8 :=
  (List.range' start count).map (get bytes)

def overwrite (bytes : ByteArray) (start : Nat) : List UInt8 → ByteArray
  | [] => bytes
  | b :: rest => overwrite (put bytes start b) (start + 1) rest

/-! ## Growing -/

/-- Puts the bytes of a list behind an array. -/
def appendList (bytes : ByteArray) (more : List UInt8) : ByteArray :=
  more.foldl ByteArray.push bytes

def appendZeros (bytes : ByteArray) (count : Nat) : ByteArray :=
  count.fold (fun _ _ grown => grown.push 0) bytes

/-- Puts zeros behind an array until it has a size; one that is larger stays as it is. -/
def padTo (bytes : ByteArray) (size : Nat) : ByteArray := appendZeros bytes (size - bytes.size)

/-- The bytes of a text in UTF-8. -/
def utf8 (s : String) : List UInt8 := s.toList.flatMap String.utf8EncodeChar

end MipsLab.Bytes
