import SchemaStack.Digest.Blake3
/-!
# Digests of outputs

A digest is written with the name of its algorithm in front.
-/

namespace SchemaStack

def digestOfBytes (bytes : List UInt8) : String := "blake3:" ++ Blake3.hex bytes

/-- The digest of a text is the digest of its encoding in UTF-8. -/
def digestOfText (s : String) : String := digestOfBytes s.toUTF8.data.toList

end SchemaStack
