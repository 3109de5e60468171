import CppCoder.Support.Utf8

/-! The proxy of the chat server: what it writes to the page while it asks Ollama. Writing to the page
succeeds here, and the body of a reply arrives in order. -/

namespace CppCoder.ChatServer
open Support Utf8

def PlainByte (b : UInt8) : Prop := 32 ≤ b.toNat ∧ b.toNat < 127 ∧ b ≠ 34 ∧ b ≠ 92

instance (b : UInt8) : Decidable (PlainByte b) := inferInstanceAs (Decidable (_ ∧ _ ∧ _ ∧ _))

/-- An error of the HTTP library, with the phrase that the library has for it. -/
structure HttpError where
  isRead : Bool
  phrase : Bytes
  plain : ∀ b ∈ phrase, PlainByte b

inductive Ending where
  | complete
  | failed (e : HttpError)

/-- What becomes of the request to Ollama: there is no reply, or one of which these pieces arrive. -/
inductive Upstream where
  | unreachable (e : HttpError)
  | answers (status : Nat) (body : List Bytes) (ending : Ending)

/-- The line of `WriteNdjsonError`, for a message without anything to escape. -/
def writeNdjsonError (message : Bytes) : Bytes := ascii "\x7b\"error\":\"" ++ message ++ ascii "\"\x7d\n"

/-- What two providers have in common: their messages are about a reply that stopped and about a request
that failed. -/
def proxied (stopped failed : String) : Upstream → List Bytes :=
  let message (e : HttpError) := if e.isRead then ascii stopped else ascii failed ++ e.phrase
  fun upstream =>
    match upstream with
    | .unreachable e => [writeNdjsonError (message e)]
    | .answers status body ending =>
        if 200 ≤ status ∧ status < 300 then
          body ++ match ending with
            | .complete => []
            | .failed e => [writeNdjsonError (message e)]
        else [writeNdjsonError (ascii "Ollama returned HTTP " ++ decimal status)]

/-- `/api/chat`. -/
def chatProvider : Upstream → List Bytes :=
  proxied "Ollama did not send chat data for 60 seconds" "Ollama request failed: "

/-- `/api/pull`. -/
def pullProvider : Upstream → List Bytes :=
  proxied "Ollama did not send pull progress for 60 seconds" "Ollama pull request failed: "

end CppCoder.ChatServer
