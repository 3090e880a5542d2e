/-
This file computes 64-bit digests by the FNV-1a rule: starting from a fixed offset,
each byte is mixed in by exclusive or and the result multiplied by a fixed prime.
-/

namespace Scriptlet.Digest

/-- The digest of no bytes. -/
def offset : UInt64 := 0xcbf29ce484222325

/-- The factor of every step. -/
def prime : UInt64 := 0x100000001b3

/-- Mixes one byte into a digest. -/
def mix (digest : UInt64) (byte : UInt8) : UInt64 :=
  (digest ^^^ byte.toUInt64) * prime

/-- The digest of a run of bytes. -/
def ofBytes (bytes : List UInt8) : UInt64 :=
  bytes.foldl mix offset

/-- The digest of a text, taken over its UTF-8 bytes. -/
def ofText (text : String) : UInt64 :=
  ofBytes text.toUTF8.data.toList

end Scriptlet.Digest
