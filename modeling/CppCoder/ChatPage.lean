import CppCoder.Support.Program
import CppCoder.Support.TextDecoder

/-! The part of the chat page that reads a streamed reply: bytes to text, text to lines, lines to
objects. -/

namespace CppCoder.ChatPage
open Support Utf8 Program JsonText TextDecoder

def lit (text : String) : Text := (ascii text).map UInt8.toNat

/-- The exceptions that leave a handler. -/
inductive Thrown where
  | typeError
  deriving DecidableEq

def cut : Text → List Text × Text
  | [] => ([], [])
  | c :: rest =>
      let (lines, last) := cut rest
      if c = 10 then ([] :: lines, last)
      else match lines with
        | [] => ([], c :: last)
        | line :: lines => ((c :: line) :: lines, last)

section Loop
variable {σ : Type} (handleLine : Text → EStateM Thrown σ Unit)

/-- The loop over the chunks that the reader delivers, with the decoder and the buffer. -/
def readLoop (decoder : Decoder) (buffer : Text) : List Bytes → EStateM Thrown σ Unit
  | [] => handleLine (buffer ++ flush decoder)
  | value :: chunks => do
      let (decoder, text) := decode decoder value
      let (lines, buffer) := cut (buffer ++ text)
      lines.forM handleLine
      readLoop decoder buffer chunks

end Loop

/-- What is on a line; a line that does not parse is passed over. -/
def parseLine (line : Text) : Option Value :=
  let line := trim line
  if line = [] then none else parse line

def onLine {σ : Type} (use : Value → EStateM Thrown σ Unit) (line : Text) : EStateM Thrown σ Unit :=
  match parseLine line with
  | none => return ()
  | some obj => use obj

structure Chat where
  sawError : Bool := false
  assistantContent : Text := []

def showError : Option Value → EStateM Thrown Chat Unit
  | some (.str text) => modify fun chat => { chat with assistantContent := text }
  | _ => throw .typeError

def addContent : Option Value → EStateM Thrown Chat Unit
  | some (.str content) =>
      modify fun chat => { chat with assistantContent := chat.assistantContent ++ content }
  | _ => return ()

/-- `null` has no properties. -/
def chatObject (obj : Value) : EStateM Thrown Chat Unit :=
  match obj with
  | .null => throw .typeError
  | _ =>
      if truthy (obj.get (lit "error")) then do
        modify fun chat => { chat with sawError := true }
        showError (obj.get (lit "error"))
      else addContent ((obj.get (lit "message")).bind (Value.get (lit "content")))

/-- What the loop saw, and the reply that is pushed to the history, if one is. -/
structure SendResult where
  sawError : Bool
  pushed : Option Text
  deriving DecidableEq

def send (chunks : List Bytes) : SendResult :=
  match readLoop (onLine chatObject) .start [] chunks {} with
  | .error _ chat => ⟨chat.sawError, none⟩
  | .ok _ chat =>
      if chat.assistantContent = [] ∧ chat.sawError = false then ⟨false, none⟩
      else if chat.sawError = false then ⟨false, some chat.assistantContent⟩
      else ⟨true, none⟩

structure Pull where
  sawError : Bool := false
  succeeded : Bool := false

def showText (text : Option Value) : EStateM Thrown Pull Unit :=
  if text.all Value.printable then return () else throw .typeError

def takeStatus : Option Value → EStateM Thrown Pull Unit
  | some (.str status) =>
      if status = lit "success" then modify fun pull => { pull with succeeded := true } else return ()
  | _ => return ()

def showStatus (status : Option Value) : EStateM Thrown Pull Unit := do
  if truthy status then showText status
  takeStatus status

def pullObject (obj : Value) : EStateM Thrown Pull Unit :=
  match obj with
  | .null => throw .typeError
  | _ =>
      if truthy (obj.get (lit "error")) then do
        modify fun pull => { pull with sawError := true }
        showText (obj.get (lit "error"))
      else showStatus (obj.get (lit "status"))

structure PullResult where
  sawError : Bool
  success : Bool
  deriving DecidableEq

/-- Success is reported when no error was seen, whatever the last status was. -/
def pullModel (chunks : List Bytes) : PullResult :=
  match readLoop (onLine pullObject) .start [] chunks {} with
  | .error _ pull => ⟨pull.sawError, false⟩
  | .ok _ pull => ⟨pull.sawError, !pull.sawError⟩

/-! ### Lines -/

theorem cut_append (first second : Text) : cut (first ++ second) =
    ((cut first).1 ++ (cut ((cut first).2 ++ second)).1, (cut ((cut first).2 ++ second)).2) := by
  induction first with
  | nil => rfl
  | cons c rest ih =>
    by_cases newline : c = 10
    · simp only [List.cons_append, cut, if_pos newline]
      rw [ih]
    · cases lines : (cut rest).1 with
      | nil =>
        have short : cut (c :: rest) = ([], c :: (cut rest).2) := by simp [cut, newline, lines]
        have same : cut (rest ++ second) = cut ((cut rest).2 ++ second) := by
          rw [ih, lines]
          rfl
        rw [short, List.nil_append, List.cons_append, List.cons_append, cut, cut, same]
      | cons line more =>
        have long : cut (c :: rest) = ((c :: line) :: more, (cut rest).2) := by simp [cut, newline, lines]
        rw [long, List.cons_append, cut, ih, lines]
        simp [newline]

theorem cut_line {text : Text} (plain : 10 ∉ text) : cut text = ([], text) := by
  induction text with
  | nil => rfl
  | cons c rest ih =>
    rw [List.mem_cons, not_or] at plain
    rw [cut, ih plain.2]
    simp [Ne.symm plain.1]

theorem cut_rest (text : Text) : 10 ∉ (cut text).2 := by
  induction text with
  | nil => simp [cut]
  | cons c rest ih =>
    rw [cut]
    dsimp only
    split_ifs with newline
    · exact ih
    · split
      · rw [List.mem_cons, not_or]
        exact ⟨Ne.symm newline, ih⟩
      · exact ih

def allLines (text : Text) : List Text := (cut text).1 ++ [(cut text).2]

theorem allLines_append (first second : Text) :
    allLines (first ++ second) = (cut first).1 ++ allLines ((cut first).2 ++ second) := by
  unfold allLines
  rw [cut_append, List.append_assoc]

section Loop
variable {σ : Type} (handleLine : Text → EStateM Thrown σ Unit)

theorem newline_flush (decoder : Decoder) : 10 ∉ flush decoder := by
  unfold flush
  split_ifs
  · exact List.not_mem_nil
  · cases decoder.markSeen <;> decide

theorem readLoop_lines (chunks : List Bytes) (decoder : Decoder) (buffer : Text) (line : 10 ∉ buffer) :
    readLoop handleLine decoder buffer chunks = (allLines (buffer ++ ((decode decoder chunks.flatten).2 ++
      flush (decode decoder chunks.flatten).1))).forM handleLine := by
  induction chunks generalizing decoder buffer with
  | nil =>
    have quiet : 10 ∉ buffer ++ flush decoder := by
      rw [List.mem_append, not_or]
      exact ⟨line, newline_flush decoder⟩
    have single : allLines (buffer ++ flush decoder) = [buffer ++ flush decoder] := by
      unfold allLines
      rw [cut_line quiet]
      rfl
    change handleLine (buffer ++ flush decoder) = (allLines (buffer ++ flush decoder)).forM handleLine
    rw [single]
    exact (bind_pure _).symm
  | cons value chunks ih =>
    have split : buffer ++ ((decode decoder (value :: chunks).flatten).2 ++
          flush (decode decoder (value :: chunks).flatten).1) =
        (buffer ++ (decode decoder value).2) ++ ((decode (decode decoder value).1 chunks.flatten).2 ++
          flush (decode (decode decoder value).1 chunks.flatten).1) := by
      rw [List.flatten_cons, decode_append]
      simp only [List.append_assoc]
    have later := ih (decode decoder value).1 (cut (buffer ++ (decode decoder value).2)).2 (cut_rest _)
    rw [split, allLines_append]
    refine Eq.trans ?_ List.forM_append.symm
    change (do
      (cut (buffer ++ (decode decoder value).2)).1.forM handleLine
      readLoop handleLine (decode decoder value).1 (cut (buffer ++ (decode decoder value).2)).2 chunks) = _
    rw [later]
    rfl

theorem readLoop_stream (chunks : List Bytes) :
    readLoop handleLine .start [] chunks = (allLines (decodeAll chunks.flatten)).forM handleLine := by
  exact readLoop_lines handleLine chunks .start [] List.not_mem_nil

end Loop

end CppCoder.ChatPage
