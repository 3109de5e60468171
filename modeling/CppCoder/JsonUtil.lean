import CppCoder.Support.Utf8

/-! The outermost span between brackets in a model's reply. -/

namespace CppCoder.JsonUtil
open Support.Utf8

/-- The text from the first `opening` to the last `closing`, or nothing. -/
def span (opening closing : UInt8) (raw : Bytes) : Bytes :=
  match raw.findIdx? (· = opening), raw.reverse.findIdx? (· = closing) with
  | some first, some back =>
      let last := raw.length - 1 - back
      if last < first then [] else (raw.drop first).take (last - first + 1)
  | _, _ => []

def extractJsonObject (raw : Bytes) : Bytes := span 123 125 raw

def extractJsonArray (raw : Bytes) : Bytes := span 91 93 raw

end CppCoder.JsonUtil
