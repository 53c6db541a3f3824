/-!
# Bytes as text

`decodeUtf8` turns bytes into text if they are UTF-8, and otherwise gives the number of bytes in
front of the first fault.
-/

namespace AllocScript

/-- The number of bytes from `offset` on that are whole characters, as far as there is no fault. -/
def validBytesFrom (bytes : ByteArray) (offset : Nat) : Nat :=
  if offset < bytes.size then
    match bytes.utf8DecodeChar? offset with
    | none => offset
    | some c => validBytesFrom bytes (offset + c.utf8Size)
  else
    offset
termination_by bytes.size - offset
decreasing_by
  have := c.utf8Size_pos
  omega

/-- The text of bytes in UTF-8. -/
def decodeUtf8 (bytes : ByteArray) : Except Nat String :=
  match String.fromUTF8? bytes with
  | some s => .ok s
  | none => .error (validBytesFrom bytes 0)

end AllocScript
