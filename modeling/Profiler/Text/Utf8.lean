/-!
# Text in UTF-8

`utf8` is the one way in which text becomes bytes: each character is encoded on its own, in order.
-/

namespace Profiler

/-- The bytes of a text in UTF-8. -/
def utf8 (text : List Char) : List UInt8 := text.flatMap String.utf8EncodeChar

end Profiler
