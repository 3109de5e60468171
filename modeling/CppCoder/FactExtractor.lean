import CppCoder.CodebaseScanner
import CppCoder.Support.Backtracking

/-! Facts that are read off a chat message with regular expressions. -/

namespace CppCoder.FactExtractor
open Support Utf8 Backtracking CodebaseScanner

def isSpace (b : UInt8) : Bool := b == 32 || (9 ≤ b && b ≤ 13)

def isDigit (b : UInt8) : Bool := 48 ≤ b && b ≤ 57

def isLetter (b : UInt8) : Bool := (65 ≤ b && b ≤ 90) || (97 ≤ b && b ≤ 122)

/-- `\w`. -/
def isWord (b : UInt8) : Bool := isLetter b || isDigit b || b == 95

def isNameByte (b : UInt8) : Bool := isWord b || b == 39 || b == 45

def sameLetter (a b : UInt8) : Bool := toLower a == toLower b

def word (text : String) : Regex UInt8 := literal sameLetter (ascii text)

def spaces : Regex UInt8 := .chars isSpace 1 none true

def captured (m : Match UInt8) : Bytes := groupOf m.groups 1

structure FactPattern where
  pattern : Regex UInt8
  format : Match UInt8 → Bytes

def formatUserName (m : Match UInt8) : Bytes := ascii "The user's name is " ++ captured m ++ ascii "."

def formatAssistantName (m : Match UInt8) : Bytes :=
  ascii "The assistant should be called " ++ captured m ++ ascii "."

def formatAge (m : Match UInt8) : Bytes := ascii "The user is " ++ captured m ++ ascii " years old."

def name : Regex UInt8 := .group 1 (.seq (one isLetter) (.chars isNameByte 0 none true))

def namePattern (phrase : String) : Regex UInt8 :=
  .seq (.boundary isWord) (.seq (word phrase)
    (.seq (.alt (.alt (word "'s") (.seq spaces (word "is"))) .empty) (.seq spaces name)))

def userName : FactPattern := ⟨namePattern "my name", formatUserName⟩

def assistantName : FactPattern := ⟨namePattern "your name", formatAssistantName⟩

def age : FactPattern where
  pattern :=
    .seq (.boundary isWord) (.seq (word "i") (.seq (.alt (word "'m") (.seq spaces (word "am")))
      (.seq spaces (.seq (.group 1 (.chars isDigit 1 (some 3) true)) (.seq (.chars isSpace 0 none true)
        (.alt (.seq (word "yo") (.boundary isWord))
          (.seq (word "year") (.seq (.chars (sameLetter 115) 0 (some 1) true)
            (.seq (.chars isSpace 0 none true) (.seq (word "old") (.boundary isWord)))))))))))
  format := formatAge

def patterns : List FactPattern := [userName, assistantName, age]

def extractFacts (message : Bytes) : List Bytes :=
  patterns.filterMap fun p => (p.pattern.search none message).map p.format

end CppCoder.FactExtractor
